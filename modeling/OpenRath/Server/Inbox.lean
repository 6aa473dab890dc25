import OpenRath.Runtime.Sqlite.Lifecycle
import OpenRath.Server.Requests

/-!
# Listing interrupts

The interrupts of a tenant are listed by `list_interrupts` in `src/rath/server/app.py`. The answer
has the form of a page, with a cursor when there are more interrupts than the limit, but the
endpoint does not read the parameter `after`: every request is answered with the first page.

## Main definitions

* `InboxRequest`, `InboxPage`, `InboxRequest.listInterrupts`: the endpoint.
* `InterruptsListed`: following the cursors, while the store is called in any way.
* `EnumeratesPending`: the cursors come to an end, and the list is complete then.

## Main results

* `InterruptsListed.of_length_le`: a list that fits on the first page.
* `InterruptsListed.repeats`: a longer one is answered with the first page again and again.
* `enumeratesPending_iff`: the list is complete if and only if it fits on the first page.
-/

namespace OpenRath

open SQLite Tx

/-! ### The endpoint -/

/-- A request for the interrupts of a tenant. The parameter `after` is not read. -/
structure InboxRequest where
  context : Option SecurityContext
  limit : Option String
  pending : Option String
  after : Option String

/-- An answer, with the parameter `after` of the next request. -/
structure InboxPage where
  items : List Interrupt
  next : Option String
deriving DecidableEq

/-- `pending_only`. -/
def InboxRequest.pendingOnly (r : InboxRequest) : Bool :=
  (r.pending.getD "true").toList.map Char.toLower ≠ "false".toList

/-- The answer with the first interrupts. -/
def InboxPage.ofValues (limit : ℤ) (values : List Interrupt) : InboxPage where
  items := values.take limit.toNat
  next := if limit < values.length then (values[limit.toNat - 1]?).map fun k => k.id.str else none

/-- `list_interrupts` of the server, where `list` is `list_interrupts` of the store. -/
def InboxRequest.listInterrupts (t : Decimals) (r : InboxRequest)
    (list : String → Bool → Except StoreError (List Interrupt)) : Except Failure InboxPage := do
  let context ← authenticate r.context "interrupt.read"
  match pageLimit t (r.limit.getD "50") 200 with
  | none => .error (.response ⟨"request.invalid_argument", "invalid pagination limit", 400⟩)
  | some limit =>
    match list context.tenantId.val r.pendingOnly with
    | .ok values => .ok (.ofValues limit values)
    | .error e => .error (.raised e)

/-- The endpoint on the tables of the SQLite store. Reading a page leaves them as they are. -/
def InboxRequest.answer (sha : Sha256) (t : Decimals) (r : InboxRequest)
    (clock : ℕ → ClockReading) (db : Database) : Except Failure InboxPage :=
  r.listInterrupts t fun tenantId pendingOnly =>
    (perform sha ⟨.listInterrupts tenantId pendingOnly, clock⟩ db).1

/-! ### What the store answers -/

/-- The interrupts of a tenant, or those of them that are not decided. -/
def inboxOf (tenantId : String) (pendingOnly : Bool) (db : Database) : List Interrupt :=
  db.interrupts.rows.filter fun k => (∃ row ∈ db.runs.find? k.runId, row.tenantId = tenantId) ∧
    (pendingOnly = true → k.decision = none)

/-- The answer of the store. -/
def inbox (tenantId : String) (pendingOnly : Bool) (db : Database) : List Interrupt :=
  (inboxOf tenantId pendingOnly db).insertionSort interruptCreatedBefore

theorem length_inbox (tenantId : String) (pendingOnly : Bool) (db : Database) :
    (inbox tenantId pendingOnly db).length = (inboxOf tenantId pendingOnly db).length :=
  List.length_insertionSort _ _

theorem nodup_inbox (tenantId : String) (pendingOnly : Bool) (db : Database) :
    ((inbox tenantId pendingOnly db).map Interrupt.id).Nodup := by
  rw [inbox, ((List.perm_insertionSort _ _).map Interrupt.id).nodup_iff]
  exact db.interrupts.nodup.sublist (List.filter_sublist.map Interrupt.id)

/-- An interrupt of a tenant that is not decided is in its inbox. -/
theorem mem_inbox {tenantId : String} {pendingOnly : Bool} {db : Database} {k : Interrupt}
    (hk : k ∈ db.interrupts.rows) (hrun : ∃ row ∈ db.runs.find? k.runId, row.tenantId = tenantId)
    (hnone : k.decision = none) : k ∈ inbox tenantId pendingOnly db := by
  rw [inbox, List.mem_insertionSort, inboxOf, List.mem_filter]
  exact ⟨hk, decide_eq_true ⟨hrun, fun _ => hnone⟩⟩

theorem perform_listInterrupts (sha : Sha256) (tenantId : String) (pendingOnly : Bool)
    (clock : ℕ → ClockReading) (db : Database) :
    (perform sha ⟨.listInterrupts tenantId pendingOnly, clock⟩ db).1 =
      .ok (inbox tenantId pendingOnly db) := by
  have hbody : (SQLite.listInterrupts tenantId pendingOnly).Yields ⟨db, clock⟩
      (inbox tenantId pendingOnly db) ⟨db, clock⟩ := yields_query.mpr ⟨rfl, rfl⟩
  exact congrArg Prod.fst (transaction_eq_ok_iff.mpr ⟨_, hbody, rfl⟩)

/-- The answer to a request: the parameter `after` has no part in it. -/
theorem InboxRequest.answer_eq_ok_iff {sha : Sha256} {t : Decimals} {r : InboxRequest}
    {clock : ℕ → ClockReading} {db : Database} {page : InboxPage} :
    r.answer sha t clock db = .ok page ↔ ∃ context limit, r.context = some context ∧
      allows context "interrupt.read" = true ∧ pageLimit t (r.limit.getD "50") 200 = some limit ∧
      page = .ofValues limit (inbox context.tenantId.val r.pendingOnly db) := by
  have hanswer : r.answer sha t clock db = r.listInterrupts t fun tenantId pendingOnly =>
      .ok (inbox tenantId pendingOnly db) := by
    refine congrArg (r.listInterrupts t) (funext fun tenantId => funext fun pendingOnly => ?_)
    exact perform_listInterrupts sha tenantId pendingOnly clock db
  rw [hanswer, InboxRequest.listInterrupts.eq_def]
  rcases hcontext : authenticate r.context "interrupt.read" with e | context
  · refine iff_of_false (fun h => by cases h) ?_
    rintro ⟨context, -, hsome, hallows, -⟩
    cases hcontext.symm.trans (authenticate_eq_ok_iff.mpr ⟨hsome, hallows⟩)
  · obtain ⟨hsome, hallows⟩ := authenticate_eq_ok_iff.mp hcontext
    rcases hlimit : pageLimit t (r.limit.getD "50") 200 with _ | limit
    · refine iff_of_false (fun h => by cases h) ?_
      rintro ⟨context', limit', -, -, hlimit', -⟩
      cases hlimit'
    · constructor
      · intro h
        exact ⟨context, limit, hsome, hallows, rfl, (Except.ok.inj h).symm⟩
      · rintro ⟨context', limit', hsome', -, hlimit', rfl⟩
        obtain rfl := Option.some.inj (hsome.symm.trans hsome')
        obtain rfl := Option.some.inj hlimit'
        rfl

/-! ### Following the cursors -/

/-- A caller asks for the first page of the interrupts of its tenant, and then for the next one as
long as there is one; in between the store is called in any way. These are the number of requests,
the tables, the parameter `after` of the next request, and the interrupts listed so far. -/
inductive InterruptsListed (sha : Sha256) (t : Decimals) (start : Database) (r : InboxRequest) :
    ℕ → Database → Option String → List Interrupt → Prop
  | first {clock : ℕ → ClockReading} {page : InboxPage} (hafter : r.after = none)
      (hpage : r.answer sha t clock start = .ok page) :
      InterruptsListed sha t start r 1 start page.next page.items
  | other {n : ℕ} {db : Database} {next : Option String} {items : List Interrupt} (call : Call) :
      InterruptsListed sha t start r n db next items →
      InterruptsListed sha t start r n (perform sha call db).2 next items
  | next {n : ℕ} {db : Database} {after : String} {items : List Interrupt} {r' : InboxRequest}
      {clock : ℕ → ClockReading} {page : InboxPage} (hafter : r'.after = some after)
      (hcontext : r'.context = r.context) (hpending : r'.pending = r.pending)
      (hpage : r'.answer sha t clock db = .ok page) :
      InterruptsListed sha t start r n db (some after) items →
      InterruptsListed sha t start r (n + 1) db page.next (items ++ page.items)

/-- Whoever follows the cursors comes to an end, and has then listed every interrupt of the tenant
that was pending all the time, exactly once. -/
structure EnumeratesPending (sha : Sha256) (t : Decimals) (start : Database) (r : InboxRequest) :
    Prop where
  terminates : ∃ most, ∀ n db next items,
    InterruptsListed sha t start r n db next items → n ≤ most
  complete : ∀ n db items, InterruptsListed sha t start r n db none items →
    ∀ context ∈ r.context, ∀ k ∈ start.interrupts.rows,
      (∃ row ∈ start.runs.find? k.runId, row.tenantId = context.tenantId.val) →
      k.decision = none → (∃ k', db.interrupts.find? k.id = some k' ∧ k'.decision = none) →
      (items.map Interrupt.id).count k.id = 1

section Course

variable {sha : Sha256} {t : Decimals} {start db : Database} {r : InboxRequest} {n : ℕ}
  {next : Option String} {items : List Interrupt}

theorem InterruptsListed.after_eq (h : InterruptsListed sha t start r n db next items) :
    r.after = none := by
  induction h with
  | first hafter _ => exact hafter
  | other _ _ ih | next _ _ _ _ _ ih => exact ih

/-- A list that fits on the first page is the answer to the only request. -/
theorem InterruptsListed.of_length_le (h : InterruptsListed sha t start r n db next items)
    (hfits : ∀ context limit, r.context = some context → allows context "interrupt.read" = true →
      pageLimit t (r.limit.getD "50") 200 = some limit →
      (inboxOf context.tenantId.val r.pendingOnly start).length ≤ limit) :
    n = 1 ∧ next = none ∧ ∃ context, r.context = some context ∧
      items = inbox context.tenantId.val r.pendingOnly start := by
  induction h with
  | first _ hpage =>
    obtain ⟨context, limit, hcontext, hallows, hlimit, rfl⟩ :=
      InboxRequest.answer_eq_ok_iff.mp hpage
    have hle := hfits context limit hcontext hallows hlimit
    rw [← length_inbox] at hle
    refine ⟨rfl, if_neg (by omega), context, hcontext, List.take_of_length_le (by omega)⟩
  | other _ _ ih => exact ih
  | next _ _ _ _ _ ih => cases ih.2.1

/-- A longer list is answered with the first page again and again. -/
theorem InterruptsListed.repeats (hafter : r.after = none) {context : SecurityContext} {limit : ℤ}
    (hcontext : r.context = some context) (hallows : allows context "interrupt.read" = true)
    (hlimit : pageLimit t (r.limit.getD "50") 200 = some limit)
    (hlong : limit < (inboxOf context.tenantId.val r.pendingOnly start).length) (n : ℕ) :
    ∃ after items,
      InterruptsListed sha t start r (n + 1) start (some after) items := by
  have hone : 1 ≤ limit := one_le_of_pageLimit (by omega) hlimit
  have hlength : limit < (inbox context.tenantId.val r.pendingOnly start).length := by
    rwa [length_inbox]
  obtain ⟨k, hk⟩ : ∃ k, (inbox context.tenantId.val r.pendingOnly start)[limit.toNat - 1]? =
      some k := ⟨_, List.getElem?_eq_getElem (by omega)⟩
  have hpage : ∀ after, ({ r with after := after } : InboxRequest).answer sha t
      (fun _ => ⟨0, by decide⟩) start =
      .ok (.ofValues limit (inbox context.tenantId.val r.pendingOnly start)) := fun after =>
    InboxRequest.answer_eq_ok_iff.mpr ⟨context, limit, hcontext, hallows, hlimit, rfl⟩
  have hnext : (InboxPage.ofValues limit (inbox context.tenantId.val r.pendingOnly start)).next =
      some k.id.str := by
    rw [InboxPage.ofValues, if_pos hlength, hk]
    rfl
  induction n with
  | zero =>
    have hself : ({ r with after := none } : InboxRequest) = r := by rw [← hafter]
    have hfirst := InterruptsListed.first hafter (hself ▸ hpage none)
    rw [hnext] at hfirst
    exact ⟨_, _, hfirst⟩
  | succ n ih =>
    obtain ⟨after, items, h⟩ := ih
    obtain ⟨r', hr'⟩ : ∃ r' : InboxRequest, r' = { r with after := some after } := ⟨_, rfl⟩
    have hpage' := hr' ▸ hpage (some after)
    have hsucc := InterruptsListed.next (by rw [hr']) (by rw [hr']) (by rw [hr']) hpage' h
    rw [hnext] at hsucc
    exact ⟨_, _, hsucc⟩

/-- **Listing interrupts.** The cursors of the interrupts of a tenant come to an end and list every
interrupt that stays pending once, whatever is called in between, if and only if all interrupts
asked for fit on the first page. Pages are built here; their text is made by the framework, which
refuses interrupts with infinities or NaN in them. -/
theorem enumeratesPending_iff (sha : Sha256) (t : Decimals) (start : Database) (r : InboxRequest) :
    EnumeratesPending sha t start r ↔ (r.after = none → ∀ context limit,
      r.context = some context → allows context "interrupt.read" = true →
      pageLimit t (r.limit.getD "50") 200 = some limit →
      (inboxOf context.tenantId.val r.pendingOnly start).length ≤ limit) := by
  constructor
  · rintro ⟨⟨most, hmost⟩, -⟩ hafter context limit hcontext hallows hlimit
    by_contra hlong
    obtain ⟨after, items, h⟩ : ∃ after items,
        InterruptsListed sha t start r (most + 1) start (some after) items :=
      InterruptsListed.repeats hafter hcontext hallows hlimit (not_le.mp hlong) most
    exact absurd (hmost _ _ _ _ h) (by omega)
  · intro hfits
    refine ⟨⟨1, fun n db next items h => (h.of_length_le (hfits h.after_eq)).1.le⟩,
      fun n db items h context hcontext k hk hrun hnone _ => ?_⟩
    obtain ⟨-, -, context', hcontext', rfl⟩ := h.of_length_le (hfits h.after_eq)
    obtain rfl := Option.some.inj (hcontext.symm.trans hcontext')
    exact List.count_eq_one_of_mem (nodup_inbox _ _ _)
      (List.mem_map_of_mem (mem_inbox hk hrun hnone))

end Course

/-! ### A sample -/

namespace Sample

/-- A caller who may read the interrupts of the sample tenant. -/
def operator : SecurityContext :=
  { reader with grants := {⟨"interrupt.read", by decide, by decide⟩} }

/-- Another run of the sample tenant, in another session. -/
def otherRun : Run := { run with id := ⟨11⟩, sessionId := ⟨14⟩ }

/-- A question about the other run. -/
def otherQuestion : Interrupt := { question with id := ⟨15⟩, runId := otherRun.id }

/-- Values of SHA-256 that tell the two runs apart. -/
def twoRuns : Sha256 :=
  { Sample.sha with uuid := fun text => if text = run.id.str then ⟨21⟩ else ⟨22⟩ }

/-- Two runs of the sample tenant wait for a decision. -/
def bothWaiting : List Call := waiting ++
  [⟨.createRun otherRun, clock 4⟩, ⟨.claimNext "first" (.finite 30) none, clock 5⟩,
    ⟨.createInterrupt otherQuestion 1, clock 6⟩]

/-- A request for the interrupts, one by one. -/
def oneByOne : InboxRequest := ⟨some operator, some "1", none, none⟩

/-- Of two interrupts the first one is listed again and again. -/
theorem oneByOne_not_enumeratesPending :
    ¬ EnumeratesPending twoRuns decimals (after twoRuns bothWaiting) oneByOne := by
  rintro ⟨⟨most, hmost⟩, -⟩
  have hlong : 1 < ((inboxOf "tenant" oneByOne.pendingOnly
      (after twoRuns bothWaiting)).length : ℤ) := by decide +kernel
  obtain ⟨next, items, h⟩ : ∃ next items, InterruptsListed twoRuns decimals
      (after twoRuns bothWaiting) oneByOne (most + 1) (after twoRuns bothWaiting)
      (some next) items :=
    InterruptsListed.repeats rfl rfl (by decide) (by decide) hlong most
  exact absurd (hmost _ _ _ _ h) (by omega)

end Sample

end OpenRath
