import OpenRath.Adapters.Memory
import OpenRath.Adapters.Settlement
import OpenRath.Library.Events
import OpenRath.Library.Permits

/-!
# Calls of providers

The executor of provider calls (`src/rath/adapters/provider.py`). Any number of calls are in
progress. Each of them is checked, asks the policy, and then takes a permit of the provider, or
waits for one; the semaphore of a provider is made by the first call that comes so far, with the
number of permits in its own specification, which those of later calls of the same provider need not
agree with. The handler is called with the context that carries the merged constraints. The permit
is given back when the handler has returned, has raised or was cancelled, and a call may also be
cancelled while it waits, even if it has been handed a permit by then.

Which of the waiting calls is handed a free permit, and whether a call that finds a free permit
stands back behind others, is left to the semaphore. The timeout is part of what a handler comes to.

## Main definitions

* `ProviderSpec`, `ProviderCall`, `ProviderCall.check`, `ProviderCall.admission`.
* `ProviderPhase`, `ProviderTask`, `ProviderTasks`, `ProviderTasks.step`.
* `ProviderTasks.Governed`: the invariant.

## Main results

* `ProviderTasks.governed_of_run`: handlers that run were admitted, and never too many of them.
-/

namespace OpenRath

/-! ### Providers -/

/-- What a provider may be asked for. -/
inductive ProviderCapability
  | chat
  | stream
  | tools
  | structuredOutput
  | embedding
  | vision
deriving DecidableEq

/-- The text of a capability. -/
def ProviderCapability.value : ProviderCapability → String
  | chat => "chat"
  | stream => "stream"
  | tools => "tools"
  | structuredOutput => "structured_output"
  | embedding => "embedding"
  | vision => "vision"

/-- A provider, without its credential. -/
structure ProviderSpec where
  id : String
  kind : String
  model : String
  capabilities : Finset ProviderCapability
  connectTimeoutSeconds : Seconds
  readTimeoutSeconds : Seconds
  totalTimeoutSeconds : Seconds
  maxConcurrency : ℤ
  id_ne_empty : id ≠ ""
  kind_ne_empty : kind ≠ ""
  model_ne_empty : model ≠ ""
  timeouts_pos : ∀ t ∈ minimum Seconds.rank
    [connectTimeoutSeconds, readTimeoutSeconds, totalTimeoutSeconds], t.nonpos = false
  maxConcurrency_pos : 1 ≤ maxConcurrency

/-- `ProviderSpec`, with the checks of `__post_init__`. -/
def ProviderSpec.create (id kind model : String) (capabilities : Finset ProviderCapability)
    (connect read total : Seconds) (maxConcurrency : ℤ) : Except StoreError ProviderSpec :=
  if hname : id ≠ "" ∧ kind ≠ "" ∧ model ≠ "" then
    if htimeouts : ∀ t ∈ minimum Seconds.rank [connect, read, total], t.nonpos = false then
      if hmax : 1 ≤ maxConcurrency then
        .ok ⟨id, kind, model, capabilities, connect, read, total, maxConcurrency, hname.1,
          hname.2.1, hname.2.2, htimeouts, hmax⟩
      else .error (.valueError "provider max_concurrency must be positive")
    else .error (.valueError "provider timeouts must be positive")
  else .error (.valueError "provider id, kind, and model are required")

variable {l : Lower}

/-- The arguments of `execute`, apart from the handler and the request that it is handed. -/
structure ProviderCall (l : Lower) where
  spec : ProviderSpec
  capability : ProviderCapability
  adapterContext : AdapterRequestContext l
  runContext : RunContext

theorem isBlank_providerInvoke : isBlank "provider.invoke" = false := by decide

theorem isBlank_provider : isBlank "provider" = false := by decide

/-- The action that the policy decides about. -/
def providerInvoke : Action := ⟨.ofNotBlank "provider.invoke" isBlank_providerInvoke⟩

namespace ProviderCall

/-- The provider, as a resource. -/
def resource (call : ProviderCall l) : Except StoreError ResourceRef :=
  (Required.ofString call.spec.id "resource.id").map fun id =>
    ⟨.ofNotBlank "provider" isBlank_provider, id, some call.adapterContext.tenantId,
      [("capability", .str call.capability.value), ("kind", .str call.spec.kind),
        ("model", .str call.spec.model)]⟩

/-- What comes before the policy is asked. -/
def check (texts : Texts) (call : ProviderCall l) : Except (ToolError l) ResourceRef := do
  if call.capability ∉ call.spec.capabilities then
    .error (.ofStore (.valueError
      (s!"provider {texts.repr (.str call.spec.id)} does not declare " ++
      texts.repr (.str call.capability.value))))
  if call.adapterContext.tenantId ≠ call.runContext.security.tenantId.val then
    .error (.raised (.other "PermissionError" "adapter and run tenant mismatch"))
  call.resource.mapError .ofStore

/-- The decision of the policy, and the context for the handler. -/
def admission (policy : PolicyEngine l) (call : ProviderCall l) (resource : ResourceRef)
    (now : Datetime) : Except (ToolError l) (AdapterRequestContext l) := do
  let decision ← (authorize policy providerInvoke resource call.runContext now).mapError .security
  (withPolicyConstraints call.adapterContext decision.constraints).mapError .ofStore

/-- The call is one that the provider is declared for, of the tenant of the run, and the policy has
allowed it; the context is the one of the call with the constraints of the decision. -/
def Admitted (policy : PolicyEngine l) (call : ProviderCall l)
    (context : AdapterRequestContext l) : Prop :=
  call.capability ∈ call.spec.capabilities ∧
  call.adapterContext.tenantId = call.runContext.security.tenantId.val ∧
  ∃ resource now decision, call.resource = .ok resource ∧
    authorize policy providerInvoke resource call.runContext now = .ok decision ∧
    withPolicyConstraints call.adapterContext decision.constraints = .ok context

theorem check_eq_ok_iff {texts : Texts} {call : ProviderCall l} {resource : ResourceRef} :
    call.check texts = .ok resource ↔ call.capability ∈ call.spec.capabilities ∧
      call.adapterContext.tenantId = call.runContext.security.tenantId.val ∧
      call.resource = .ok resource := by
  simp only [check, ite_error_bind_eq_ok_iff, mapError_eq_ok_iff, not_not]

/-- What has been checked and decided is admitted. -/
theorem admitted_of_check {texts : Texts} {policy : PolicyEngine l} {call : ProviderCall l}
    {resource : ResourceRef} {now : Datetime} {context : AdapterRequestContext l}
    (hcheck : call.check texts = .ok resource)
    (hadmission : call.admission policy resource now = .ok context) :
    call.Admitted policy context := by
  obtain ⟨hcapability, htenant, hresource⟩ := check_eq_ok_iff.mp hcheck
  simp only [admission, bind_eq_ok_iff, mapError_eq_ok_iff] at hadmission
  obtain ⟨decision, hdecision, hcontext⟩ := hadmission
  exact ⟨hcapability, htenant, resource, now, decision, hresource, hdecision, hcontext⟩

end ProviderCall

/-! ### Calls in progress -/

/-- How far a call has come. -/
inductive ProviderPhase (l : Lower)
  | called
  /-- It waits for the policy. -/
  | authorizing (resource : ResourceRef)
  /-- It waits for a permit. -/
  | waiting (context : AdapterRequestContext l)
  /-- It has been handed a permit, and has not been resumed yet. -/
  | handed (context : AdapterRequestContext l)
  /-- The handler has been called. -/
  | running (context : AdapterRequestContext l)
  | ended (result : Except (ToolError l) Value)

/-- A call in progress. -/
structure ProviderTask (l : Lower) where
  call : ProviderCall l
  phase : ProviderPhase l

namespace ProviderTask

/-- The provider of which the task holds a permit. -/
def held? (task : ProviderTask l) : Option String :=
  match task.phase with
  | .handed _ | .running _ => some task.call.spec.id
  | _ => none

/-- The context that the handler of the task runs with. -/
def running? (task : ProviderTask l) : Option (AdapterRequestContext l) :=
  match task.phase with
  | .running context => some context
  | _ => none

/-- The context of a task that was admitted, and has not ended. -/
def admitted? (task : ProviderTask l) : Option (AdapterRequestContext l) :=
  match task.phase with
  | .waiting context | .handed context | .running context => some context
  | _ => none

theorem held?_of_running {task : ProviderTask l} (h : task.running?.isSome) :
    task.held? = some task.call.spec.id := by
  rcases task with ⟨call, phase⟩
  cases phase with
  | running => rfl
  | _ => cases h

theorem admitted?_of_running {task : ProviderTask l} {context : AdapterRequestContext l}
    (h : task.running? = some context) : task.admitted? = some context := by
  rcases task with ⟨call, phase⟩
  cases phase with
  | running => exact h
  | _ => cases h

end ProviderTask

/-- The calls in progress, and the semaphores by the ids of the providers. -/
abbrev ProviderTasks (l : Lower) : Type := Permits (@ProviderTask.held? l)

/-- What happens to the call with a number. -/
inductive ProviderEvent (l : Lower)
  /-- It is made. -/
  | begin (j : ℕ)
  /-- The policy answers. A call that finds a free permit takes it, or stands back behind others. -/
  | decide (j : ℕ) (now : Datetime) (standsBack : Bool)
  /-- It is handed a free permit. -/
  | hand (j : ℕ)
  /-- It is resumed after that. -/
  | resume (j : ℕ)
  /-- The handler has come to an end, in some way. -/
  | finish (j : ℕ) (result : Except (ToolError l) Value)
  /-- It is cancelled while it waits. -/
  | cancel (j : ℕ) (e : ToolError l)

namespace ProviderTasks

theorem start_balanced (calls : List (ProviderCall l)) (k : String) :
    0 + (calls.map fun call => (⟨call, .called⟩ : ProviderTask l)).countP
      (fun t => t.held? = some k) = 0 := by
  rw [Nat.zero_add, List.countP_eq_zero]
  intro t ht
  obtain ⟨call, -, rfl⟩ := List.mem_map.mp ht
  simp [ProviderTask.held?]

/-- Calls that have not been made, and no semaphores. -/
def start (calls : List (ProviderCall l)) : ProviderTasks l where
  capacity _ := 0
  value _ := 0
  tasks := calls.map fun call => ⟨call, .called⟩
  balanced := start_balanced calls

variable (texts : Texts) (policy : PolicyEngine l)

/-- An event, if it can happen. -/
def step (s : ProviderTasks l) : ProviderEvent l → Option (ProviderTasks l)
  | .begin j => s.tasks[j]?.bind fun task =>
    match task.phase with
    | .called =>
      match task.call.check texts with
      | .ok resource => s.replace? j ⟨task.call, .authorizing resource⟩
      | .error e => s.replace? j ⟨task.call, .ended (.error e)⟩
    | _ => none
  | .decide j now standsBack => s.tasks[j]?.bind fun task =>
    match task.phase with
    | .authorizing resource =>
      match task.call.admission policy resource now with
      | .ok context =>
        -- `setdefault`: the semaphore that is there keeps its permits.
        let t := s.supply task.call.spec.id task.call.spec.maxConcurrency.toNat
        if t.value task.call.spec.id = 0 ∨ standsBack = true then
          t.replace? j ⟨task.call, .waiting context⟩
        else t.replace? j ⟨task.call, .running context⟩
      | .error e => s.replace? j ⟨task.call, .ended (.error e)⟩
    | _ => none
  | .hand j => s.tasks[j]?.bind fun task =>
    match task.phase with
    | .waiting context => s.replace? j ⟨task.call, .handed context⟩
    | _ => none
  | .resume j => s.tasks[j]?.bind fun task =>
    match task.phase with
    | .handed context => s.replace? j ⟨task.call, .running context⟩
    | _ => none
  | .finish j result => s.tasks[j]?.bind fun task =>
    match task.phase with
    | .running _ => s.replace? j ⟨task.call, .ended result⟩
    | _ => none
  | .cancel j e => s.tasks[j]?.bind fun task =>
    match task.phase with
    | .authorizing _ | .waiting _ | .handed _ => s.replace? j ⟨task.call, .ended (.error e)⟩
    | _ => none

/-! ### The invariant -/

/-- The task has been checked, or admitted, if it has come so far. -/
structure Vetted (s : ProviderTasks l) (task : ProviderTask l) : Prop where
  checked : ∀ resource, task.phase = .authorizing resource → task.call.check texts = .ok resource
  admitted : ∀ context ∈ task.admitted?,
    task.call.Admitted policy context ∧ 0 < s.capacity task.call.spec.id

/-- The calls stay the same, all of them are vetted, and the permits of a provider are as many as
one of its calls has specified. -/
structure Governed (calls : List (ProviderCall l)) (s : ProviderTasks l) : Prop where
  calls_eq : s.tasks.map ProviderTask.call = calls
  vetted : ∀ task ∈ s.tasks, Vetted texts policy s task
  capacity : ∀ k, s.capacity k = 0 ∨
    ∃ call ∈ calls, call.spec.id = k ∧ (s.capacity k : ℤ) = call.spec.maxConcurrency

variable {texts policy} {calls : List (ProviderCall l)} {s s' t : ProviderTasks l}
  {e : ProviderEvent l} {call : ProviderCall l} {task : ProviderTask l}

theorem vetted_ended (s : ProviderTasks l) (call : ProviderCall l)
    (result : Except (ToolError l) Value) : Vetted texts policy s ⟨call, .ended result⟩ where
  checked _ h := nomatch h
  admitted _ h := nomatch h

/-- A task that was admitted stays so. -/
theorem Vetted.of_admitted {phase : ProviderPhase l} {context : AdapterRequestContext l}
    (h : Vetted texts policy s task) (hcontext : task.admitted? = some context)
    (hphase : ∀ resource, phase ≠ .authorizing resource)
    (hadmitted : (⟨task.call, phase⟩ : ProviderTask l).admitted? = some context) :
    Vetted texts policy s ⟨task.call, phase⟩ where
  checked resource hresource := absurd hresource (hphase resource)
  admitted context' h' := by
    cases hadmitted.symm.trans h'
    exact h.admitted context hcontext

/-- The permits of a provider with a semaphore stay the same. -/
theorem Vetted.mono (h : Vetted texts policy s task)
    (hcapacity : ∀ k, 0 < s.capacity k → t.capacity k = s.capacity k) :
    Vetted texts policy t task where
  checked := h.checked
  admitted context hcontext := by
    obtain ⟨hadmitted, hpos⟩ := h.admitted context hcontext
    exact ⟨hadmitted, by rwa [hcapacity _ hpos]⟩

/-- What a step does: the semaphore of the call may be made, and the phase of the call changes. -/
theorem exists_replace_of_step (hvetted : ∀ task ∈ s.tasks, Vetted texts policy s task)
    (h : step texts policy s e = some s') :
    ∃ j task phase t, s.tasks[j]? = some task ∧
      (t = s ∨ t = s.supply task.call.spec.id task.call.spec.maxConcurrency.toNat) ∧
      t.replace? j ⟨task.call, phase⟩ = some s' ∧ Vetted texts policy t ⟨task.call, phase⟩ := by
  cases e with
  | begin j =>
    obtain ⟨⟨call, phase⟩, htask, h⟩ := Option.bind_eq_some_iff.mp h
    cases phase with
    | called =>
      rcases hcheck : call.check texts with e | resource <;> simp only [hcheck] at h
      · exact ⟨j, _, _, s, htask, .inl rfl, h, vetted_ended s call _⟩
      · refine ⟨j, _, _, s, htask, .inl rfl, h, ?_, fun _ h => nomatch h⟩
        intro resource' hresource
        cases hresource
        exact hcheck
    | _ => cases h
  | decide j now standsBack =>
    obtain ⟨⟨call, phase⟩, htask, h⟩ := Option.bind_eq_some_iff.mp h
    cases phase with
    | authorizing resource =>
      rcases hadmission : call.admission policy resource now with e | context <;>
        simp only [hadmission] at h
      · exact ⟨j, _, _, s, htask, .inl rfl, h, vetted_ended s call _⟩
      have hcheck := (hvetted _ (List.mem_of_getElem? htask)).checked resource rfl
      have hadmitted : call.Admitted policy context ∧
          0 < (s.supply call.spec.id call.spec.maxConcurrency.toNat).capacity call.spec.id := by
        have hpos := call.spec.maxConcurrency_pos
        exact ⟨ProviderCall.admitted_of_check hcheck hadmission,
          s.supply_capacity_pos call.spec.id (by omega)⟩
      split_ifs at h
      · refine ⟨j, _, _, _, htask, .inr rfl, h, (fun _ h => nomatch h), fun context' h => ?_⟩
        cases h
        exact hadmitted
      · refine ⟨j, _, _, _, htask, .inr rfl, h, (fun _ h => nomatch h), fun context' h => ?_⟩
        cases h
        exact hadmitted
    | _ => cases h
  | hand j =>
    obtain ⟨⟨call, phase⟩, htask, h⟩ := Option.bind_eq_some_iff.mp h
    cases phase with
    | waiting context =>
      exact ⟨j, _, _, s, htask, .inl rfl, h,
        (hvetted _ (List.mem_of_getElem? htask)).of_admitted rfl (fun _ h => nomatch h) rfl⟩
    | _ => cases h
  | resume j =>
    obtain ⟨⟨call, phase⟩, htask, h⟩ := Option.bind_eq_some_iff.mp h
    cases phase with
    | handed context =>
      exact ⟨j, _, _, s, htask, .inl rfl, h,
        (hvetted _ (List.mem_of_getElem? htask)).of_admitted rfl (fun _ h => nomatch h) rfl⟩
    | _ => cases h
  | finish j result =>
    obtain ⟨⟨call, phase⟩, htask, h⟩ := Option.bind_eq_some_iff.mp h
    cases phase with
    | running context => exact ⟨j, _, _, s, htask, .inl rfl, h, vetted_ended s call _⟩
    | _ => cases h
  | cancel j e =>
    obtain ⟨⟨call, phase⟩, htask, h⟩ := Option.bind_eq_some_iff.mp h
    cases phase with
    | authorizing | waiting | handed =>
      exact ⟨j, _, _, s, htask, .inl rfl, h, vetted_ended s call _⟩
    | _ => cases h

/-- A step keeps the invariant. -/
theorem Governed.step (hs : Governed texts policy calls s) (h : step texts policy s e = some s') :
    Governed texts policy calls s' := by
  obtain ⟨j, task, phase, t, htask, ht, hreplace, hvetted⟩ := exists_replace_of_step hs.vetted h
  obtain ⟨hcapacity', htasks'⟩ := Permits.replace?_eq_some hreplace
  have hcall : task.call ∈ calls :=
    hs.calls_eq ▸ List.mem_map_of_mem (List.mem_of_getElem? htask)
  have htasks : t.tasks = s.tasks := by
    rcases ht with rfl | rfl
    · rfl
    · exact Permits.supply_tasks ..
  have hcapacity : ∀ k, 0 < s.capacity k → t.capacity k = s.capacity k := by
    intro k hk
    rcases ht with rfl | rfl
    · rfl
    · exact s.supply_capacity_of_pos _ _ hk
  have hmono : ∀ k, 0 < t.capacity k → s'.capacity k = t.capacity k := fun k _ => by
    rw [hcapacity']
  refine ⟨?_, fun other hother => ?_, fun k => ?_⟩
  · rw [← htasks] at htask
    rw [Permits.map_tasks_of_replace? htask hreplace rfl, htasks]
    exact hs.calls_eq
  · rw [htasks', htasks] at hother
    rcases List.mem_or_eq_of_mem_set hother with hother | rfl
    · exact ((hs.vetted other hother).mono hcapacity).mono hmono
    · exact hvetted.mono hmono
  · rw [hcapacity']
    rcases ht with rfl | rfl
    · exact hs.capacity k
    · rw [Permits.supply_capacity]
      split_ifs with hk
      · refine .inr ⟨task.call, hcall, hk.1.symm, ?_⟩
        have hpos := task.call.spec.maxConcurrency_pos
        omega
      · exact hs.capacity k

theorem governed_start (calls : List (ProviderCall l)) :
    Governed texts policy calls (start calls) where
  calls_eq := by
    rw [start, List.map_map]
    exact List.map_id _
  vetted task htask := by
    obtain ⟨call, -, rfl⟩ := List.mem_map.mp htask
    exact ⟨(fun _ h => nomatch h), fun _ h => nomatch h⟩
  capacity k := .inl rfl

/-- **Calls of providers.** In every run, whatever the order is and however the calls end: of each
provider no more handlers run than there are permits, of which there are as many as one of its calls
has specified; every handler that runs was declared, is of the tenant of the run and was allowed by
the policy, and has the context with the constraints; a call only waits as long as others hold
permits, or else there is a free permit for it; and when no call holds a permit, none is lost. -/
theorem governed_of_run {events : List (ProviderEvent l)}
    (h : Events.final? (step texts policy) (start calls) events = some s) :
    (∀ k, s.tasks.countP (fun task => task.running?.isSome ∧ task.call.spec.id = k) ≤
        s.capacity k) ∧
      (∀ k, s.capacity k = 0 ∨
        ∃ call ∈ calls, call.spec.id = k ∧ (s.capacity k : ℤ) = call.spec.maxConcurrency) ∧
      (∀ task ∈ s.tasks, ∀ context ∈ task.running?, task.call.Admitted policy context) ∧
      (∀ task ∈ s.tasks, ∀ context, task.phase = .waiting context →
        (∃ other ∈ s.tasks, other.held? = some task.call.spec.id) ∨
          0 < s.value task.call.spec.id) ∧
      ∀ k, (∀ task ∈ s.tasks, task.held? ≠ some k) → s.value k = s.capacity k := by
  have hs : Governed texts policy calls s :=
    Events.invariant_of_step (fun _ _ _ => Governed.step) (governed_start calls) h
  refine ⟨fun k => ?_, hs.capacity, fun task htask context hcontext => ?_,
    fun task htask context hphase => ?_, fun k => Permits.value_eq_of_forall⟩
  · refine le_trans (List.countP_mono_left fun task _ h => ?_) (s.countP_le k)
    obtain ⟨hrunning, rfl⟩ := of_decide_eq_true h
    exact decide_eq_true (ProviderTask.held?_of_running hrunning)
  · exact ((hs.vetted task htask).admitted context (ProviderTask.admitted?_of_running hcontext)).1
  · have hadmitted : task.admitted? = some context := by
      rw [ProviderTask.admitted?, hphase]
    have hpos := ((hs.vetted task htask).admitted context hadmitted).2
    by_cases hheld : ∃ other ∈ s.tasks, other.held? = some task.call.spec.id
    · exact .inl hheld
    · rw [Permits.value_eq_of_forall fun other hother h => hheld ⟨other, hother, h⟩]
      exact .inr hpos

end ProviderTasks

/-! ### A sample -/

namespace Sample

/-- A provider with a single permit. -/
def claude : ProviderSpec where
  id := "claude"
  kind := "anthropic"
  model := "claude"
  capabilities := {.chat}
  connectTimeoutSeconds := .finite 10
  readTimeoutSeconds := .finite 60
  totalTimeoutSeconds := .finite 120
  maxConcurrency := 1
  id_ne_empty := by decide
  kind_ne_empty := by decide
  model_ne_empty := by decide
  timeouts_pos := by decide +kernel
  maxConcurrency_pos := by decide

/-- A call of the provider. -/
def chat : ProviderCall lower where
  spec := claude
  capability := .chat
  adapterContext := finding
  runContext := alice

/-- Of two calls the second waits until the handler of the first has raised. -/
def chats : List (ProviderEvent lower) :=
  [.begin 0, .begin 1, .decide 0 (.utc (reading 2)) false, .decide 1 (.utc (reading 2)) false,
    .finish 0 (.error (.raised (.timeout ""))), .hand 1, .resume 1]

theorem chats_governed :
    ∃ s, Events.final? (ProviderTasks.step texts permissive) (ProviderTasks.start [chat, chat])
        chats = some s ∧
      (s.tasks.map fun task => task.running?.isSome) = [false, true] ∧
      (∀ k, s.tasks.countP (fun task => task.running?.isSome ∧ task.call.spec.id = k) ≤
        s.capacity k) := by
  obtain ⟨s, h⟩ := Option.isSome_iff_exists.mp
    (show (Events.final? (ProviderTasks.step texts permissive) (ProviderTasks.start [chat, chat])
      chats).isSome = true by decide +kernel)
  have hrunning : (Events.final? (ProviderTasks.step texts permissive)
      (ProviderTasks.start [chat, chat]) chats).map
        (fun s => s.tasks.map fun task => task.running?.isSome) = some [false, true] := by
    decide +kernel
  rw [h] at hrunning
  exact ⟨s, h, Option.some.inj hrunning, (ProviderTasks.governed_of_run h).1⟩

end Sample

end OpenRath
