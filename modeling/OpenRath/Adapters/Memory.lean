import OpenRath.Adapters.Governance
import OpenRath.Library.Joining
import OpenRath.Server.Requests

/-!
# Memory namespaces

The executor of memory operations (`src/rath/adapters/memory.py`) asks the policy about a resource
that is named by the parts of the namespace, joined by colons; the server, which makes the namespace
from the body of a request, writes the same text, as it is, to the audit log
(`execute_store_operation` in `src/rath/server/app.py`). Parts that are absent are left out, and
colons in the parts are not escaped. What else the executor checks is not part of the model.

## Main definitions

* `MemoryNamespace`, `MemoryNamespace.create`, `MemoryNamespace.joined`.
* `memoryResource`: the resource that `execute` asks the policy about.
* `storeNamespace`: the namespace of a request to the server.
* `MemoryNamespace.pieces`: the parts of a namespace between colons.

## Main results

* `distinguished_iff`: when two namespaces have different names in the policy and the audit log.
-/

namespace OpenRath

/-! ### Namespaces -/

/-- How far what is in a memory is trusted. -/
inductive TrustLevel
  | untrusted
  | trusted
  | system
deriving DecidableEq

/-- The text of a trust level. -/
def TrustLevel.value : TrustLevel → String
  | untrusted => "untrusted"
  | trusted => "trusted"
  | system => "system"

/-- A namespace of the memory. -/
structure MemoryNamespace where
  tenantId : String
  userId : Option String
  agentId : Option String
  sessionId : Option String
  trust : TrustLevel
  tenantId_ne_empty : tenantId ≠ ""

namespace MemoryNamespace

/-- `MemoryNamespace`, with the check of `__post_init__`. -/
def create (tenantId : String) (userId agentId sessionId : Option String) (trust : TrustLevel) :
    Except StoreError MemoryNamespace :=
  if h : tenantId ≠ "" then .ok ⟨tenantId, userId, agentId, sessionId, trust, h⟩
  else .error (.valueError "memory namespace tenant_id is required")

/-- What a namespace is named by. -/
def names (n : MemoryNamespace) : String × Option String × Option String × Option String :=
  (n.tenantId, n.userId, n.agentId, n.sessionId)

/-- The parts that are present. -/
def parts (n : MemoryNamespace) : List String :=
  [some n.tenantId, n.userId, n.agentId, n.sessionId].filterMap id

/-- The parts that are present, joined by colons. -/
def joined (n : MemoryNamespace) : String :=
  String.ofList ([':'].intercalate (n.parts.map String.toList))

end MemoryNamespace

/-! ### The executor -/

section Executor

variable {l : Lower}

/-- The resource that the policy decides about. -/
def memoryResource (n : MemoryNamespace) (tenantId : String) : Except StoreError ResourceRef := do
  let kind ← Required.ofString "memory_namespace" "resource.kind"
  let id ← Required.ofString n.joined "resource.id"
  .ok ⟨kind, id, some tenantId, [("trust", .str n.trust.value)]⟩

/-- An exception of a function of the stores. -/
def ToolError.ofStore (e : StoreError) : ToolError l := .raised (.store e)

end Executor

/-! ### The server -/

/-- A part of a namespace in the body of a request. -/
def namespacePart (texts : Texts) (body : JsonObject) (key : String) : Option String :=
  match body.get? key with
  | none | some .null => none
  | some value => some (texts.text value)

/-- The namespace of a request to the store, with the checks of `execute_store_operation`. -/
def storeNamespace (texts : Texts) (context : SecurityContext) (body : JsonObject) :
    Except Exn MemoryNamespace := do
  let part := namespacePart texts body
  if ∃ tenantId ∈ part "tenant_id", tenantId ≠ context.tenantId.val then
    .error (.other "PermissionError" "memory namespace tenant mismatch")
  if (∃ userId ∈ part "user_id", userId ≠ context.principal.id.val) ∧
      allows context "memory.admin" = false then
    .error (.other "PermissionError" "memory namespace owner mismatch")
  -- What comes in over HTTP is never trusted more.
  (MemoryNamespace.create context.tenantId.val (part "user_id") (part "agent_id")
    (part "session_id") .untrusted).mapError .store

/-- The id of the resource that the server writes to the audit log. -/
def auditResourceId (n : MemoryNamespace) : String := n.joined

/-! ### Names -/

namespace MemoryNamespace

/-- A namespace of a tenant. -/
def ofTenant (tenantId : Required) (userId agentId sessionId : Option String)
    (trust : TrustLevel) : MemoryNamespace :=
  ⟨tenantId.val, userId, agentId, sessionId, trust, tenantId.val_ne_empty⟩

/-- The parts of a namespace between colons, the last one without the white space at its end. -/
def pieces (n : MemoryNamespace) : List (List Char) :=
  ((n.parts.map String.toList).flatMap fun part => part.splitOn ':').modifyLast
    fun piece => piece.rdropWhile isSpace

end MemoryNamespace

/-- A text that is stripped does not start with white space. -/
theorem Required.dropWhile_val (r : Required) : r.val.toList.dropWhile isSpace = r.val.toList := by
  have hstrip : (r.val.toList.dropWhile isSpace).rdropWhile isSpace = r.val.toList := by
    rw [← String.toList_ofList (l := (r.val.toList.dropWhile isSpace).rdropWhile isSpace)]
    exact congrArg String.toList r.strip_val
  have hsuffix : r.val.toList.dropWhile isSpace <:+ r.val.toList := List.dropWhile_suffix _
  have hprefix := (List.rdropWhile_prefix isSpace (r.val.toList.dropWhile isSpace)).length_le
  rw [hstrip] at hprefix
  exact hsuffix.eq_of_length_le hprefix

section Names

variable {tenantId : Required} {n : MemoryNamespace}

/-- The joined parts of a namespace do not start with white space. -/
theorem exists_joined_eq_cons (htenant : n.tenantId = tenantId.val) :
    ∃ c cs, [':'].intercalate (n.parts.map String.toList) = c :: cs ∧ isSpace c = false := by
  obtain ⟨rest, hparts⟩ : ∃ rest, n.parts = tenantId.val :: rest := ⟨_, by rw [← htenant]; rfl⟩
  obtain ⟨c, cs, hchars⟩ := List.exists_cons_of_ne_nil
    (fun h => tenantId.val_ne_empty (String.toList_inj.mp h) : tenantId.val.toList ≠ [])
  have hc : isSpace c = false := by
    have hstart := tenantId.dropWhile_val
    rw [hchars, List.dropWhile_cons] at hstart
    by_contra hspace
    rw [if_pos (by simpa using hspace)] at hstart
    have hlength := (List.dropWhile_suffix isSpace (l := cs)).length_le
    rw [hstart, List.length_cons] at hlength
    omega
  rw [hparts, List.map_cons, hchars]
  rcases rest with _ | ⟨part, rest⟩
  · exact ⟨c, cs, by simp, hc⟩
  · rw [List.map_cons, List.intercalate_cons_cons]
    exact ⟨c, _, rfl, hc⟩

/-- The name of a resource is the joined parts without the white space at their end. -/
theorem exists_memoryResource (htenant : n.tenantId = tenantId.val) :
    ∃ resource, memoryResource n tenantId.val = .ok resource ∧ resource.id.val.toList =
      ([':'].intercalate (n.parts.map String.toList)).rdropWhile isSpace := by
  obtain ⟨kind, hkind⟩ : ∃ kind, Required.ofString "memory_namespace" "resource.kind" = .ok kind :=
    ⟨_, rfl⟩
  obtain ⟨c, cs, hjoined, hc⟩ := exists_joined_eq_cons htenant
  have hstrip : (strip n.joined).toList =
      ([':'].intercalate (n.parts.map String.toList)).rdropWhile isSpace := by
    rw [strip, MemoryNamespace.joined, String.toList_ofList, String.toList_ofList, hjoined,
      List.dropWhile_cons_of_neg (by simp [hc])]
  have hne : strip n.joined ≠ "" := by
    intro hempty
    have hblank := strip_eq_empty_iff.mp hempty
    rw [isBlank, MemoryNamespace.joined, String.toList_ofList, hjoined, List.all_cons, hc] at hblank
    exact Bool.false_ne_true hblank
  refine ⟨⟨kind, ⟨strip n.joined, strip_strip n.joined, hne⟩, some tenantId.val,
    [("trust", .str n.trust.value)]⟩, ?_, hstrip⟩
  rw [memoryResource, hkind, Required.ofString, dif_neg hne]
  rfl

/-- Two namespaces have the same joined parts, up to white space at the end, if and only if they
have the same pieces. -/
theorem rdropWhile_joined_eq_iff (n n' : MemoryNamespace) :
    ([':'].intercalate (n.parts.map String.toList)).rdropWhile isSpace =
        ([':'].intercalate (n'.parts.map String.toList)).rdropWhile isSpace ↔
      n.pieces = n'.pieces := by
  have hpieces : ∀ n : MemoryNamespace,
      (([':'].intercalate (n.parts.map String.toList)).rdropWhile isSpace).splitOn ':' =
        n.pieces := fun n => by
    rw [splitOn_rdropWhile (by decide), splitOn_intercalate_flatMap
      (by simp [MemoryNamespace.parts])]
    rfl
  rw [← hpieces n, ← hpieces n']
  exact (splitOn_injective ':').eq_iff.symm

/-- Two different namespaces have different names in the policy and in the audit log. -/
def Distinguished (n n' : MemoryNamespace) : Prop :=
  n.names ≠ n'.names → auditResourceId n ≠ auditResourceId n' ∧
    ∃ resource resource', memoryResource n n.tenantId = .ok resource ∧
      memoryResource n' n'.tenantId = .ok resource' ∧ resource.id ≠ resource'.id

/-- **Names of namespaces.** The policy and the audit log tell two namespaces apart if and only if
the pieces of their parts between colons are not the same, apart from white space at the end: what
is not told apart is whose a part is, and where a part with a colon ends. -/
theorem distinguished_iff (tenantId tenantId' : Required)
    (userId agentId sessionId userId' agentId' sessionId' : Option String)
    (trust trust' : TrustLevel) :
    Distinguished (.ofTenant tenantId userId agentId sessionId trust)
        (.ofTenant tenantId' userId' agentId' sessionId' trust') ↔
      (tenantId, userId, agentId, sessionId) = (tenantId', userId', agentId', sessionId') ∨
      (MemoryNamespace.ofTenant tenantId userId agentId sessionId trust).pieces ≠
        (MemoryNamespace.ofTenant tenantId' userId' agentId' sessionId' trust').pieces := by
  set n := MemoryNamespace.ofTenant tenantId userId agentId sessionId trust with hn
  set n' := MemoryNamespace.ofTenant tenantId' userId' agentId' sessionId' trust' with hn'
  have hnames : n.names = n'.names ↔
      (tenantId, userId, agentId, sessionId) = (tenantId', userId', agentId', sessionId') := by
    simp only [hn, hn', MemoryNamespace.names, MemoryNamespace.ofTenant, Prod.mk.injEq,
      Required.ext_iff]
  obtain ⟨resource, hresource, hid⟩ := exists_memoryResource (rfl : n.tenantId = tenantId.val)
  obtain ⟨resource', hresource', hid'⟩ := exists_memoryResource (rfl : n'.tenantId = tenantId'.val)
  have hids : resource.id = resource'.id ↔ n.pieces = n'.pieces := by
    rw [← rdropWhile_joined_eq_iff, ← hid, ← hid', String.toList_inj, Required.ext_iff]
  have haudit : auditResourceId n = auditResourceId n' → n.pieces = n'.pieces := fun h => by
    rw [← rdropWhile_joined_eq_iff]
    exact congrArg (List.rdropWhile isSpace) (String.ofList_injective h)
  rw [← hnames, or_iff_not_imp_left, Distinguished]
  refine forall_congr' fun _ => ⟨?_, fun hpieces => ?_⟩
  · rintro ⟨-, r, r', hr, hr', hne⟩
    obtain rfl : resource = r := Except.ok.inj (hresource.symm.trans hr)
    obtain rfl : resource' = r' := Except.ok.inj (hresource'.symm.trans hr')
    exact fun h => hne (hids.mpr h)
  · exact ⟨fun h => hpieces (haudit h), resource, resource', hresource, hresource',
      fun h => hpieces (hids.mp h)⟩

end Names

namespace Sample

/-- The tenant of the sample. -/
def acme : Required := ⟨"acme", rfl, by decide⟩

theorem strip_alice : strip "alice" = "alice" := rfl

theorem alice_ne_empty : "alice" ≠ "" := by decide

/-- A token of the user alice. -/
def aliceToken : SecurityContext where
  principal := ⟨⟨"alice", strip_alice, alice_ne_empty⟩, .user, []⟩
  tenantId := acme
  projectId := none
  grants := ∅
  attributes := []

/-- What is asked for the user with a name and what is asked for the agent with this name are not
told apart. -/
theorem alice_not_distinguished : ∃ n n',
    storeNamespace ⟨fun _ => "", fun _ => ""⟩ aliceToken [("user_id", .str "alice")] = .ok n ∧
    storeNamespace ⟨fun _ => "", fun _ => ""⟩ aliceToken [("agent_id", .str "alice")] = .ok n' ∧
    ¬ Distinguished n n' := by
  refine ⟨.ofTenant acme (some "alice") none none .untrusted,
    .ofTenant acme none (some "alice") none .untrusted, rfl, rfl, fun h => ?_⟩
  obtain ⟨haudit, -⟩ := h (by decide)
  exact haudit rfl

end Sample

end OpenRath
