import OpenRath.Adapters.Context
import OpenRath.Adapters.Values

/-!
# The governance of a call of a tool

`ToolExecutor.execute` (`src/rath/adapters/tool.py`) in full. The arguments are checked against the
schema of the tool, the tenants are compared, a grant of an approval is matched with the call and
given to the validator, and the policy is asked; then the handler is called with the context that
carries the merged constraints, between two operations of the effect ledger.

The policy engine, the validator of approvals and the artifact store belong to the application; each
is asked at most once in a call, so a function stands for it. What a handler does is the answer to a
command. Of the timeout there is only whether the handler has returned too late: a handler that is
waited for raises in that case.

## Main definitions

* `GovernedTool`, `ApprovalGrant`, `GovernedCall`, `GovernedExecutor`.
* `GovernedExecutor.admission`: what comes before the ledger.
* `ToolCmd`, `HandlerOutcome`, `ToolProcess`, `GovernedExecutor.execute`.
* `GovernedExecutor.Approved`, `GovernedExecutor.Decides`, `GovernedExecutor.Governed`.

## Main results

* `GovernedExecutor.admission_eq_ok_iff`: the calls that are admitted.
* `GovernedExecutor.execute_governed`: a handler is only started in a governed call.
-/

namespace OpenRath

/-! ### Tools and their calls -/

theorem isBlank_append (s t : String) : isBlank (s ++ t) = (isBlank s && isBlank t) := by
  rw [isBlank, String.toList_append, List.all_append, isBlank, isBlank]

/-- A text that is not blank, stripped. -/
def Required.ofNotBlank (s : String) (h : isBlank s = false) : Required where
  val := strip s
  strip_val := strip_strip s
  val_ne_empty hs := Bool.false_ne_true (h.symm.trans (strip_eq_empty_iff.mp hs))

/-- The risk of a tool. -/
inductive Risk
  | low
  | medium
  | high
  | critical
deriving DecidableEq

/-- The text of a risk. -/
def Risk.value : Risk → String
  | low => "low"
  | medium => "medium"
  | high => "high"
  | critical => "critical"

/-- A tool, with what governs its calls. -/
structure GovernedTool extends ToolSpec where
  inputSchema : JsonObject
  risk : Risk
  maxOutputBytes : ℤ
  requiresApproval : Bool
  name_ne_empty : name ≠ ""
  version_ne_empty : version ≠ ""
  maxOutputBytes_pos : 0 < maxOutputBytes
  requiresApproval_of_risk :
    effects = .nonIdempotent → risk ∈ [.high, .critical] → requiresApproval = true

namespace GovernedTool

variable (spec : GovernedTool)

theorem isBlank_recordedName : isBlank spec.recordedName = false := by
  have hat : isBlank "@" = false := by decide
  simp only [ToolSpec.recordedName, isBlank_append, toString, hat, Bool.and_false, Bool.false_and]

theorem isBlank_reason : isBlank s!"tool {spec.name} requires approval" = false := by
  have htool : isBlank "tool " = false := by decide
  simp only [isBlank_append, toString, htool, Bool.false_and]

end GovernedTool

theorem isBlank_toolExecute : isBlank "tool.execute" = false := by decide

theorem isBlank_tool : isBlank "tool" = false := by decide

theorem isBlank_toolSpec : isBlank "tool-spec" = false := by decide

/-- A grant of an approval. -/
structure ApprovalGrant where
  decisionId : UUID
  runId : UUID
  nodeId : String
  tenantId : String
  toolId : String
  argumentsDigest : String
  actorId : String

variable {l : Lower}

/-- The arguments of `execute`, apart from the handler. -/
structure GovernedCall (l : Lower) where
  spec : GovernedTool
  arguments : List (Value × Value)
  adapterContext : AdapterRequestContext l
  runContext : RunContext
  approval : Option ApprovalGrant
  runId : Option UUID
  idempotencyKey : Option String

/-- A grant is for a call, whose arguments have a digest. -/
def ApprovalGrant.Matches (approval : ApprovalGrant) (call : GovernedCall l) (digest : String) :
    Prop :=
  approval.runId = call.adapterContext.runId ∧ approval.nodeId = call.adapterContext.nodeId ∧
  approval.tenantId = call.adapterContext.tenantId ∧
  approval.toolId = call.spec.recordedName ∧ approval.argumentsDigest = digest

instance (approval : ApprovalGrant) (call : GovernedCall l) (digest : String) :
    Decidable (approval.Matches call digest) :=
  inferInstanceAs (Decidable (_ ∧ _))

/-- An artifact that was stored. -/
structure StoredArtifact where
  uri : String
  digest : String
  size : ℕ
  mediaType : String

/-- The reference to an artifact that is returned in place of the output. -/
def StoredArtifact.reference (artifact : StoredArtifact) : JsonObject :=
  [("artifact_uri", .str artifact.uri), ("digest", .str artifact.digest),
    ("media_type", .str artifact.mediaType), ("size", .int artifact.size)]

/-- The services of a tool executor. -/
structure GovernedExecutor (l : Lower) where
  policy : PolicyEngine l
  effectLedger : Bool
  /-- `artifact_store.put`, of a tenant, an encoded output and the metadata. -/
  artifactStore : Option (String → List UInt8 → JsonObject → Except Exn StoredArtifact)
  /-- The truth of what the validator returns, or of what that comes to if it is awaited. -/
  approvalValidator : Option (ApprovalGrant → Except Exn Bool)
  objects : Objects
  texts : Texts
  /-- The digest of a JSON document. -/
  sha256 : JsonObject → String
  /-- `json.dumps(result, ensure_ascii=False, default=str).encode("utf-8")`. -/
  encode : Value → Except Exn (List UInt8)
  /-- The text of an exception, whose class may be one of the application. -/
  text : Exn → Except Exn String

/-- What `execute` raises. -/
inductive ToolError (l : Lower)
  | raised (e : Exn)
  | security (e : SecurityError l)

namespace PolicyConstraints

theorem timeoutSeconds_pos_none : ∀ t ∈ (none : Option Seconds), t.nonpos = false := by
  intro t h
  cases h

theorem maxOutputBytes_pos_none : ∀ n ∈ (none : Option ℤ), 0 < n := by
  intro n h
  cases h

theorem lower_of_mem_empty (l : Lower) : ∀ host ∈ (∅ : Finset String), l.lower host = host :=
  fun host h => absurd h (Finset.notMem_empty host)

/-- `PolicyConstraints()`. -/
def unlimited : PolicyConstraints l where
  timeoutSeconds := none
  maxOutputBytes := none
  allowedNetworkHosts := ∅
  filesystemRoot := none
  readOnly := false
  redactions := ∅
  timeoutSeconds_pos := timeoutSeconds_pos_none
  maxOutputBytes_pos := maxOutputBytes_pos_none
  allowedNetworkHosts_lower := lower_of_mem_empty l

end PolicyConstraints

namespace GovernedExecutor

variable (x : GovernedExecutor l) (call : GovernedCall l) (now : Datetime)

/-! ### Admission -/

/-- A `PermissionError`. -/
def permissionError (message : String) : ToolError l := .raised (.other "PermissionError" message)

/-- `arguments_digest`. -/
def argumentsDigest (arguments : List (Value × Value)) : Except Exn String :=
  ((Value.freezeEntries x.objects "tool arguments" [] arguments).map x.sha256).mapError fun text =>
    .other "TypeError" text

/-- The check of the grant: whether there is one that was accepted. -/
def checkGrant (digest : String) : Except (ToolError l) Bool :=
  match call.approval with
  | none => .ok false
  | some approval =>
    if approval.Matches call digest then
      match x.approvalValidator with
      | none => .error (permissionError "approval grant cannot be verified")
      | some validator =>
        match validator approval with
        | .error e => .error (.raised e)
        | .ok false => .error (permissionError "approval grant is not valid")
        | .ok true => .ok true
    else .error (permissionError "approval grant does not match tool invocation")

/-- The action that the policy decides about. -/
def toolExecute : Action := ⟨.ofNotBlank "tool.execute" isBlank_toolExecute⟩

/-- The tool, as a resource. -/
def resource : ResourceRef where
  kind := .ofNotBlank "tool" isBlank_tool
  id := .ofNotBlank call.spec.recordedName call.spec.isBlank_recordedName
  tenantId := some call.adapterContext.tenantId
  attributes := [("effects", .str call.spec.effects.value), ("risk", .str call.spec.risk.value)]

/-- The decision of the policy; an approval that it asks for has to be there. -/
def decide (approvalValid : Bool) : Except (ToolError l) (PolicyDecision l) :=
  match authorize x.policy toolExecute (resource call) call.runContext now with
  | .ok decision => .ok decision
  | .error (.approvalRequired decision) =>
    if approvalValid then .ok decision else .error (.security (.approvalRequired decision))
  | .error e => .error (.security e)

/-- The decision of a tool that requires an approval by itself. -/
def specDecision : PolicyDecision l where
  effect := .requireApproval
  reason := .ofNotBlank s!"tool {call.spec.name} requires approval" call.spec.isBlank_reason
  policyId := .ofNotBlank "tool-spec" isBlank_toolSpec
  constraints := .unlimited

/-- The part of `execute` before the ledger: the digest of the arguments and the context for the
handler. -/
def admission : Except (ToolError l) (String × AdapterRequestContext l) := do
  ((Value.mapping call.arguments).validate x.objects x.texts false call.spec.inputSchema
    "$").mapError fun e => .raised (.schema e)
  if call.adapterContext.tenantId ≠ call.runContext.security.tenantId.val then
    .error (permissionError "adapter and run tenant mismatch")
  let digest ← (x.argumentsDigest call.arguments).mapError .raised
  let approvalValid ← x.checkGrant call digest
  let decision ← x.decide call now approvalValid
  let context ← (withPolicyConstraints call.adapterContext decision.constraints).mapError fun e =>
    .raised (.store e)
  if call.spec.requiresApproval = true ∧ approvalValid = false then
    .error (.security (.approvalRequired (specDecision call)))
  .ok (digest, context)

end GovernedExecutor

/-! ### Commands -/

/-- What a call of a handler comes to. -/
inductive HandlerOutcome
  | raised (e : Exn)
  /-- A value, and whether it took longer than the timeout to return it. -/
  | returned (value : Value) (late : Bool)

/-- The commands of a call. -/
inductive ToolCmd (l : Lower)
  /-- An operation of the effect ledger. -/
  | ledger (op : LedgerOp)
  /-- A call of the handler. -/
  | handler (arguments : List (Value × Value)) (context : AdapterRequestContext l)

/-- What a command answers. -/
def ToolCmd.Answer : ToolCmd l → Type
  | ledger op => Except LedgerError op.Result
  | handler _ _ => HandlerOutcome

/-- A process that calls a tool. -/
abbrev ToolProcess (l : Lower) (α : Type) : Type := Proc (ToolCmd l) ToolCmd.Answer (ToolError l) α

/-- What `execute` returns. -/
inductive Delivered
  /-- What the handler has returned. -/
  | value (v : Value)
  /-- The reference to an artifact, or a result that was recorded before. -/
  | json (j : Json)

namespace ToolProcess

/-- An operation of the effect ledger, whose errors are raised. -/
def ledger (op : LedgerOp) : ToolProcess l op.Result :=
  .call (.ledger op) fun r => .ofExcept (Except.mapError (fun e => .raised (.ledger e)) r)

/-- A call of the handler. -/
def handler (arguments : List (Value × Value)) (context : AdapterRequestContext l) :
    ToolProcess l HandlerOutcome :=
  .call (.handler arguments context) .ret

/-- Raise an exception. -/
def raise {α : Type} (e : Exn) : ToolProcess l α := .throw (.raised e)

end ToolProcess

namespace GovernedExecutor

open ToolProcess

variable (x : GovernedExecutor l) (call : GovernedCall l) (now : Datetime)

/-! ### After the handler -/

/-- `ledger.complete`, if there is an invocation. The result is frozen in the transaction, after the
status was checked. -/
def complete (invocation : Option ToolInvocation) (result : Value) : ToolProcess l Unit :=
  match invocation with
  | none => pure ()
  | some row =>
    match result.freeze x.objects "tool result" with
    | .ok frozen => do
      ledger (.complete row.id frozen)
      let _ ← ledger (.get row.id)
    | .error message => do
      let current : ToolInvocation ← ledger (.get row.id)
      if current.status ∈ [.prepared, .dispatched] then raise (.other "TypeError" message)
      else raise (.ledger (.conflict "invalid effect invocation transition"))

/-- `ledger.fail`, if there is an invocation. -/
def fail (invocation : Option ToolInvocation) (error : String) : ToolProcess l Unit :=
  match invocation with
  | none => pure ()
  | some row => do
    ledger (.fail row.id error)
    let _ ← ledger (.get row.id)

/-- What is raised where the handler is called. -/
def guarded : HandlerOutcome → Except Exn Value
  | .raised e => .error e
  | .returned value late =>
    if late then .error (.timeout s!"tool {call.spec.recordedName} exceeded timeout")
    else .ok value

/-- Whether an exception of the handler is recorded as a failure. -/
def recordsFailure (e : Exn) : Bool :=
  call.spec.effects ≠ .nonIdempotent ∧ e.isTimeout = false

/-- The limit on the size of the output. -/
def limit (context : AdapterRequestContext l) : ℤ :=
  min call.spec.maxOutputBytes
    (context.policyConstraints.maxOutputBytes.getD call.spec.maxOutputBytes)

/-- The metadata of an artifact. -/
def metadata : JsonObject :=
  [("run_id", .ofText? (call.runId.map UUID.str)), ("tool", .str call.spec.recordedName)]

/-- A JSON object as a value. -/
def referenceValue (artifact : StoredArtifact) : Value :=
  .mapping [(.str "artifact_uri", .str artifact.uri), (.str "digest", .str artifact.digest),
    (.str "size", .int artifact.size), (.str "media_type", .str artifact.mediaType)]

/-- The check of an output against the schema of the tool. -/
def checkOutput (result : Value) : Except Exn Unit :=
  match call.spec.outputSchema with
  | none => .ok ()
  | some schema => (result.validate x.objects x.texts false schema "$").mapError .schema

/-- The part of `execute` for an output. -/
def deliver (context : AdapterRequestContext l) (invocation : Option ToolInvocation)
    (result : Value) : ToolProcess l Delivered := do
  .ofExcept ((x.checkOutput call result).mapError .raised)
  let encoded ← .ofExcept ((x.encode result).mapError .raised)
  if limit call context < encoded.length then
    match x.artifactStore with
    | some put =>
      let artifact ← .ofExcept ((put context.tenantId encoded (metadata call)).mapError .raised)
      complete x invocation (referenceValue artifact)
      pure (.json (.obj artifact.reference))
    | none =>
      fail invocation s!"tool output exceeded {limit call context} bytes"
      raise (.other "ToolOutputTooLarge"
        s!"tool output is {encoded.length} bytes; maximum is {limit call context}")
  else
    complete x invocation result
    pure (.value result)

/-- The part of `execute` after the handler. -/
def finish (context : AdapterRequestContext l) (invocation : Option ToolInvocation)
    (outcome : HandlerOutcome) : ToolProcess l Delivered :=
  match guarded call outcome with
  | .error e => do
    if recordsFailure call e ∧ invocation.isSome then
      let text ← .ofExcept ((x.text e).mapError .raised)
      fail invocation s!"{e.typeName}: {text}"
    raise e
  | .ok result => x.deliver call context invocation result

/-! ### The call -/

/-- The part of `execute` from the handler on. -/
def start (context : AdapterRequestContext l) (invocation : Option ToolInvocation) :
    ToolProcess l Delivered := do
  let outcome ← handler call.arguments context
  x.finish call context invocation outcome

/-- The part of `execute` from the ledger on. -/
def dispatch (digest : String) (context : AdapterRequestContext l) : ToolProcess l Delivered :=
  if x.effectLedger then
    match call.runId with
    | none => raise (.other "ValueError" "run_id is required when effect ledger is enabled")
    | some runId => do
      let invocation : ToolInvocation ← ledger (.prepare runId call.spec.recordedName
        call.spec.effects digest (call.idempotencyKey.or context.idempotencyKey)
        (some context.nodeId) context.checkpointSequence)
      if invocation.status = .succeeded then pure (.json invocation.result)
      else if invocation.status ∈ [.ambiguous, .dispatched] then
        raise (.other "RuntimeError"
          "tool invocation outcome is ambiguous and requires reconciliation")
      else
        ledger (.markDispatched invocation.id)
        let dispatched : ToolInvocation ← ledger (.get invocation.id)
        x.start call context (some dispatched)
  else x.start call context none

/-- `execute`; the policy is asked at a reading of the clock. -/
def execute : ToolProcess l Delivered := do
  let (digest, context) ← .ofExcept (x.admission call now)
  x.dispatch call digest context

/-! ### Governed calls -/

/-- There is a grant for the call that the validator accepts. -/
def Approved : Prop :=
  ∃ approval ∈ call.approval, ∃ digest, x.argumentsDigest call.arguments = .ok digest ∧
    approval.Matches call digest ∧ ∃ validator ∈ x.approvalValidator, validator approval = .ok true

/-- The policy allows the call, or asks for an approval that is there. -/
def Decides (decision : PolicyDecision l) : Prop :=
  (x.policy toolExecute (resource call) call.runContext = .ok decision ∧
      decision.effect ∈ [.allow, .allowWithConstraints]) ∨
    AsksApproval x.policy toolExecute (resource call) call.runContext decision ∧ x.Approved call

/-- A call that may be made with a context. -/
structure Governed (context : AdapterRequestContext l) : Prop where
  arguments : (Value.mapping call.arguments).validate x.objects x.texts false call.spec.inputSchema
    "$" = .ok ()
  tenants : call.adapterContext.tenantId = call.runContext.security.tenantId.val
  active : call.runContext.Active now
  decision : ∃ decision, x.Decides call decision ∧ IsMerge call.adapterContext.policyConstraints
    decision.constraints context.policyConstraints
  approved : call.spec.requiresApproval = true → x.Approved call
  context_eq : context = { call.adapterContext with policyConstraints := context.policyConstraints }

/-! ### What is admitted -/

section Admission

variable {x call now} {digest : String} {context : AdapterRequestContext l}

/-- The check of the grant finds none, or one that is accepted. -/
theorem checkGrant_eq_ok_iff {approvalValid : Bool}
    (hdigest : x.argumentsDigest call.arguments = .ok digest) :
    x.checkGrant call digest = .ok approvalValid ↔
      (approvalValid = true ↔ x.Approved call) ∧ (call.approval.isSome → x.Approved call) := by
  have happroved : x.Approved call ↔ ∃ approval ∈ call.approval, approval.Matches call digest ∧
      ∃ validator ∈ x.approvalValidator, validator approval = .ok true := by
    simp only [Approved, hdigest, Except.ok.injEq, exists_eq_left']
  rw [happroved, checkGrant]
  rcases call.approval with _ | approval
  · simp
  · simp only [Option.mem_some_iff, exists_eq_left', Option.isSome_some, true_imp_iff]
    split_ifs with hmatches
    · rcases x.approvalValidator with _ | validator
      · simp
      · rcases hvalid : validator approval with e | _ | _ <;> simp [hvalid, hmatches]
    · simp [hmatches]

/-- The policy decides, before the deadline. -/
theorem decide_eq_ok_iff {approvalValid : Bool} {decision : PolicyDecision l}
    (hvalid : approvalValid = true ↔ x.Approved call) :
    x.decide call now approvalValid = .ok decision ↔
      call.runContext.Active now ∧ x.Decides call decision := by
  rw [decide, Decides, and_or_left, ← authorize_eq_ok_iff, ← and_assoc,
    ← authorize_eq_approvalRequired_iff, ← hvalid]
  rcases authorize x.policy toolExecute (resource call) call.runContext now with e | d
  · cases e <;> simp
    cases approvalValid <;> simp
  · simp

/-- **Admission.** A call is admitted if it is governed and a grant, if there is one, is accepted.
-/
theorem admission_eq_ok_iff : x.admission call now = .ok (digest, context) ↔
    x.argumentsDigest call.arguments = .ok digest ∧ x.Governed call now context ∧
      (call.approval.isSome → x.Approved call) := by
  simp only [admission, bind_eq_ok_iff, mapError_eq_ok_iff, ite_error_bind_eq_ok_iff,
    withPolicyConstraints_eq_ok_iff, not_not]
  constructor
  · rintro ⟨_, harguments, htenants, _, hdigest, approvalValid, hgrant, decision, hdecision, _,
      hcontext, hspec, heq⟩
    cases heq
    obtain ⟨hvalid, hpresent⟩ := (checkGrant_eq_ok_iff hdigest).mp hgrant
    obtain ⟨hactive, hdecides⟩ := (decide_eq_ok_iff hvalid).mp hdecision
    refine ⟨hdigest, ⟨harguments, htenants, hactive, ⟨decision, hdecides, hcontext.1⟩,
      fun hrequires => hvalid.mp ?_, hcontext.2⟩, hpresent⟩
    rw [← Bool.not_eq_false]
    exact fun hfalse => hspec ⟨hrequires, hfalse⟩
  · rintro ⟨hdigest, h, hpresent⟩
    obtain ⟨decision, hdecides, hmerge⟩ := h.decision
    classical
    have hvalid : Decidable.decide (x.Approved call) = true ↔ x.Approved call := decide_eq_true_iff
    refine ⟨(), h.arguments, h.tenants, digest, hdigest, _,
      (checkGrant_eq_ok_iff hdigest).mpr ⟨hvalid, hpresent⟩, decision,
      (decide_eq_ok_iff hvalid).mpr ⟨h.active, hdecides⟩, context, ⟨hmerge, h.context_eq⟩, ?_, rfl⟩
    rintro ⟨hrequires, hfalse⟩
    exact of_decide_eq_false hfalse (h.approved hrequires)

end Admission

/-! ### The handlers that are started -/

section Handlers

/-- A command that calls no handler but with the arguments and a context. -/
def CallsWith (arguments : List (Value × Value)) (context : AdapterRequestContext l)
    (c : ToolCmd l) : Prop :=
  ∀ arguments' context', c = .handler arguments' context' →
    arguments' = arguments ∧ context' = context

/-- The commands after the handler: the invocation is closed, and read. -/
inductive Closing : ToolCmd l → Prop
  | complete (id : UUID) (result : Json) : Closing (.ledger (.complete id result))
  | fail (id : UUID) (error : String) : Closing (.ledger (.fail id error))
  | get (id : UUID) : Closing (.ledger (.get id))

variable (digest : String) (context : AdapterRequestContext l) (invocation : Option ToolInvocation)

theorem callsWith_ledger (arguments : List (Value × Value)) (op : LedgerOp) :
    CallsWith arguments context (.ledger op) := by
  intro _ _ h
  cases h

theorem Closing.callsWith {arguments : List (Value × Value)} {c : ToolCmd l} (h : Closing c) :
    CallsWith arguments context c := by
  cases h <;> exact callsWith_ledger context arguments _

theorem issues_ledger {P : ToolCmd l → Prop} {op : LedgerOp} (h : P (.ledger op)) :
    (ledger op).Issues P :=
  ⟨h, fun _ => (Proc.closed_issues P).ofExcept _⟩

theorem issues_handler (arguments : List (Value × Value)) :
    (handler arguments context).Issues (CallsWith arguments context) := by
  refine ⟨fun _ _ h => ?_, fun _ => trivial⟩
  cases h
  exact ⟨rfl, rfl⟩

theorem issues_complete (result : Value) : (x.complete invocation result).Issues Closing := by
  rcases invocation with _ | row
  · trivial
  rw [complete]
  split
  · refine (issues_ledger (.complete _ _)).bind fun _ => ?_
    exact (issues_ledger (.get _)).bind fun _ => trivial
  · refine (issues_ledger (.get _)).bind fun current => ?_
    exact (Proc.closed_issues _).ite trivial trivial

theorem issues_fail (error : String) : (fail (l := l) invocation error).Issues Closing := by
  rcases invocation with _ | row
  · trivial
  rw [fail]
  refine (issues_ledger (.fail _ _)).bind fun _ => ?_
  exact (issues_ledger (.get _)).bind fun _ => trivial

theorem issues_deliver (result : Value) :
    (x.deliver call context invocation result).Issues Closing := by
  have hC := Proc.closed_issues (A := ToolCmd.Answer) (Closing (l := l))
  refine hC.bind (hC.ofExcept _) fun _ => hC.bind (hC.ofExcept _) fun encoded => ?_
  refine hC.ite ?_ ?_
  · rcases x.artifactStore with _ | put
    · exact hC.bind (issues_fail invocation _) fun _ => trivial
    · refine hC.bind (hC.ofExcept _) fun artifact => ?_
      exact hC.bind (x.issues_complete invocation _) fun _ => trivial
  · exact hC.bind (x.issues_complete invocation result) fun _ => trivial

/-- After the handler, the invocation is closed or left as it is. -/
theorem issues_finish (outcome : HandlerOutcome) :
    (x.finish call context invocation outcome).Issues Closing := by
  have hC := Proc.closed_issues (A := ToolCmd.Answer) (Closing (l := l))
  rw [finish]
  split
  · refine hC.ite ?_ trivial
    refine hC.bind (hC.ofExcept _) fun text => ?_
    exact hC.bind (issues_fail invocation _) fun _ => trivial
  · exact x.issues_deliver call context invocation _

theorem issues_start :
    (x.start call context invocation).Issues (CallsWith call.arguments context) :=
  (issues_handler context call.arguments).bind fun outcome =>
    (x.issues_finish call context invocation outcome).imp fun _ h => h.callsWith context

/-- From the ledger on, the handler is called with the arguments of the call and the context. -/
theorem issues_dispatch :
    (x.dispatch call digest context).Issues (CallsWith call.arguments context) := by
  have hC := Proc.closed_issues (A := ToolCmd.Answer) (CallsWith (l := l) call.arguments context)
  refine hC.ite ?_ (x.issues_start call context none)
  rcases call.runId with _ | runId
  · trivial
  refine hC.bind (issues_ledger (callsWith_ledger context _ _)) fun row => ?_
  refine hC.ite trivial (hC.ite trivial ?_)
  refine hC.bind (issues_ledger (callsWith_ledger context _ _)) fun _ => ?_
  exact hC.bind (issues_ledger (callsWith_ledger context _ _)) fun dispatched =>
    x.issues_start call context (some dispatched)

end Handlers

/-- **No ungoverned call.** A call starts a handler only with its arguments and a context with which
it is governed; a call that is not governed raises, without a command. -/
theorem execute_governed :
    (x.execute call now).Issues (fun c => ∀ arguments context, c = .handler arguments context →
      arguments = call.arguments ∧ x.Governed call now context) ∧
    ((∀ context, ¬ x.Governed call now context) → ∃ e, x.execute call now = .throw e) := by
  rw [execute]
  rcases hadmission : x.admission call now with e | ⟨digest, context⟩
  · exact ⟨trivial, fun _ => ⟨e, rfl⟩⟩
  · have hgoverned := (admission_eq_ok_iff.mp hadmission).2.1
    refine ⟨(x.issues_dispatch call digest context).imp fun c hc => ?_, fun h => ?_⟩
    · rintro arguments context' rfl
      obtain ⟨harguments, hcontext⟩ := hc arguments context' rfl
      exact ⟨harguments, hcontext ▸ hgoverned⟩
    · exact absurd hgoverned (h context)

end GovernedExecutor

end OpenRath
