import Mathlib.Order.WithBot
import OpenRath.Library.Minimum
import OpenRath.Runtime.World

/-!
# Authorization

A policy engine decides about an action on a resource (`src/rath/security/policy.py`). It belongs to
the application: it returns a decision or raises, and `authorize` turns everything but a decision
that allows the action into an exception. With a decision come constraints, limits that an adapter
has to keep to. Host names are compared in lower case.

## Main definitions

* `Lower`: `str.lower`.
* `PolicyConstraints`, `PolicyConstraints.create`, `PolicyDecision`, `Action`, `ResourceRef`.
* `SecurityError`: what a policy engine and `authorize` raise.
* `authorize`.

## Main results

* `authorize_eq_ok_iff`: when an action is allowed.
-/

namespace OpenRath

/-- `str.lower`, which leaves a text alone that it has made. -/
structure Lower where
  lower : String → String
  lower_lower : ∀ s, lower (lower s) = lower s

/-! ### Constraints -/

/-- The number of a number of seconds, in the order of the numbers. -/
def Seconds.rank : Seconds → Option (WithBot (WithTop ℚ))
  | .finite q => some ((q : WithTop ℚ) : WithBot (WithTop ℚ))
  | .inf => some ((⊤ : WithTop ℚ) : WithBot (WithTop ℚ))
  | .negInf => some ⊥
  | .nan => none

theorem Seconds.rank_eq_none_iff {s : Seconds} : s.rank = none ↔ s = .nan := by
  cases s <;> simp [rank]

/-- Nothing but what is not a number and the largest one is not less than infinity. -/
theorem Seconds.less_inf_eq_false_iff {s : Seconds} :
    less rank s .inf = false ↔ s = .nan ∨ s = .inf := by
  cases s <;> simp [less, rank]

theorem Seconds.less_negInf (s : Seconds) : less rank s .negInf = false := by
  cases s <;> simp [less, rank]

/-- The limits that come with a decision. -/
@[ext]
structure PolicyConstraints (l : Lower) where
  timeoutSeconds : Option Seconds
  maxOutputBytes : Option ℤ
  allowedNetworkHosts : Finset String
  filesystemRoot : Option String
  readOnly : Bool
  redactions : Finset String
  timeoutSeconds_pos : ∀ t ∈ timeoutSeconds, t.nonpos = false
  maxOutputBytes_pos : ∀ n ∈ maxOutputBytes, 0 < n
  allowedNetworkHosts_lower : ∀ h ∈ allowedNetworkHosts, l.lower h = h

namespace PolicyConstraints

variable {l : Lower}

theorem lower_of_mem_image {hosts : Finset String} {h : String} (hh : h ∈ hosts.image l.lower) :
    l.lower h = h := by
  obtain ⟨host, -, rfl⟩ := Finset.mem_image.mp hh
  exact l.lower_lower host

/-- `PolicyConstraints`, with the checks of `__post_init__`. -/
def create (timeoutSeconds : Option Seconds) (maxOutputBytes : Option ℤ)
    (allowedNetworkHosts : Finset String) (filesystemRoot : Option String) (readOnly : Bool)
    (redactions : Finset String) : Except StoreError (PolicyConstraints l) :=
  if htimeout : ∀ t ∈ timeoutSeconds, t.nonpos = false then
    if houtput : ∀ n ∈ maxOutputBytes, 0 < n then
      .ok
        { timeoutSeconds := timeoutSeconds
          maxOutputBytes := maxOutputBytes
          allowedNetworkHosts := allowedNetworkHosts.image l.lower
          filesystemRoot := filesystemRoot
          readOnly := readOnly
          redactions := redactions
          timeoutSeconds_pos := htimeout
          maxOutputBytes_pos := houtput
          allowedNetworkHosts_lower := fun _ => lower_of_mem_image }
    else .error (.valueError "max_output_bytes must be greater than zero")
  else .error (.valueError "timeout_seconds must be greater than zero")

/-- Hosts in lower case stay as they are. -/
theorem image_lower {hosts : Finset String} (h : ∀ host ∈ hosts, l.lower host = host) :
    hosts.image l.lower = hosts := by
  rw [Finset.image_congr (g := id) h, Finset.image_id]

end PolicyConstraints

/-! ### Decisions -/

/-- What a policy decides. -/
inductive PolicyEffect
  | allow
  | deny
  | requireApproval
  | allowWithConstraints
deriving DecidableEq

/-- The decision of a policy. -/
structure PolicyDecision (l : Lower) where
  effect : PolicyEffect
  reason : Required
  policyId : Required
  constraints : PolicyConstraints l

/-- What a policy decides about. -/
structure Action where
  name : Required

/-- What the action is on. -/
structure ResourceRef where
  kind : Required
  id : Required
  tenantId : Option String
  attributes : JsonObject

/-- An exception on the way to a decision. -/
inductive SecurityError (l : Lower)
  /-- `AuthorizationError`. -/
  | denied (decision : PolicyDecision l)
  /-- `ApprovalRequiredError`. -/
  | approvalRequired (decision : PolicyDecision l)
  /-- `PolicyEvaluationError`. -/
  | evaluation
  /-- `DeadlineExceededError`. -/
  | deadlineExceeded
  /-- Another `RathError`. -/
  | rath (e : Exn)
  /-- An exception that is no `RathError`. -/
  | exception (e : Exn)
  /-- What is raised and is no `Exception`, such as a cancellation. -/
  | base (e : Exn)

/-- A policy engine: what `evaluate` returns or raises. -/
abbrev PolicyEngine (l : Lower) : Type :=
  Action → ResourceRef → RunContext → Except (SecurityError l) (PolicyDecision l)

/-- `remaining_seconds`, in microseconds. -/
def RunContext.remaining (context : RunContext) (now : Datetime) : Option ℤ :=
  context.deadline.map fun deadline => max 0 (deadline.instant - now.instant)

/-- What `ensure_active` lets pass. -/
def RunContext.Active (context : RunContext) (now : Datetime) : Prop :=
  ∀ remaining ∈ context.remaining now, 0 < remaining

instance (context : RunContext) (now : Datetime) : Decidable (context.Active now) :=
  inferInstanceAs (Decidable (∀ remaining ∈ context.remaining now, 0 < remaining))

variable {l : Lower}

/-- `authorize`, at a reading of the clock. -/
def authorize (engine : PolicyEngine l) (action : Action) (resource : ResourceRef)
    (context : RunContext) (now : Datetime) : Except (SecurityError l) (PolicyDecision l) :=
  if context.Active now then
    match engine action resource context with
    | .ok decision =>
      match decision.effect with
      | .deny => .error (.denied decision)
      | .requireApproval => .error (.approvalRequired decision)
      | .allow | .allowWithConstraints => .ok decision
    | .error (.exception _) => .error .evaluation
    | .error e => .error e
  else .error .deadlineExceeded

section Authorize

variable {engine : PolicyEngine l} {action : Action} {resource : ResourceRef}
  {context : RunContext} {now : Datetime} {decision : PolicyDecision l}

/-- An action is allowed by a decision to allow it, before the deadline. -/
theorem authorize_eq_ok_iff : authorize engine action resource context now = .ok decision ↔
    context.Active now ∧ engine action resource context = .ok decision ∧
      decision.effect ∈ [.allow, .allowWithConstraints] := by
  rw [authorize]
  split_ifs with hactive
  · rcases engine action resource context with e | d
    · cases e <;> simp
    · rcases heffect : d.effect <;> simp [heffect, hactive] <;> grind
  · simp [hactive]

/-- The policy asks for an approval: it decides so, or raises that one is required. -/
def AsksApproval (engine : PolicyEngine l) (action : Action) (resource : ResourceRef)
    (context : RunContext) (decision : PolicyDecision l) : Prop :=
  engine action resource context = .ok decision ∧ decision.effect = .requireApproval ∨
    engine action resource context = .error (.approvalRequired decision)

theorem authorize_eq_approvalRequired_iff :
    authorize engine action resource context now = .error (.approvalRequired decision) ↔
      context.Active now ∧ AsksApproval engine action resource context decision := by
  rw [authorize, AsksApproval]
  split_ifs with hactive
  · rcases engine action resource context with e | d
    · cases e <;> simp [hactive]
    · rcases heffect : d.effect <;> simp [heffect, hactive] <;> grind
  · simp [hactive]

end Authorize

end OpenRath
