import OpenRath.Library.Linearization
import OpenRath.Server.Resources

/-!
# The two stores of resources

The server keeps sessions and aliases in dictionaries (`InMemoryResourceStore` in
`src/rath/server/resources.py`) or in a database (`SQLiteResourceStore`), which any number of
servers may share. An operation on the dictionaries is executed at once. One on the database is a
program of transactions, between which the others execute theirs; still, it takes effect at its
first transaction, as no row is ever changed afterwards. So what the servers see of the database is
what they would see of the dictionaries, were these in one place: whatever the interleaving is, the
operations have an order in which the dictionaries give the same answers. Only the lists of aliases
come in another order, that of creation instead of that of the ids.

A session is created with an id that is drawn at random, which no session has at that time.

## Main definitions

* `InMemoryResourceStore`, `InMemoryResourceStore.apply`: the dictionaries.
* `ResourceOp`, `ResourceOp.program`: the operations on the database.
* `ResourceTables.inMemory`: the tables as dictionaries.

## Main results

* `implements_program`: the database implements the operations on the dictionaries.
* `resources_linearizable`: the runs of the database are linearizable.
-/

namespace OpenRath

/-! ### Dictionaries -/

/-- A dictionary, in order of insertion. -/
abbrev Dict (κ ν : Type) : Type := Table (Prod.fst : κ × ν → κ)

namespace Dict

variable {κ ν : Type} [DecidableEq κ]

/-- The value at a key. -/
def get? (d : Dict κ ν) (k : κ) : Option ν := (d.find? k).map Prod.snd

/-- `dict.setdefault`. -/
def setdefault (d : Dict κ ν) (k : κ) (v : ν) : ν × Dict κ ν :=
  match d.get? k with
  | some existing => (existing, d)
  | none => (v, d.set (k, v))

end Dict

namespace Table

variable {κ ρ : Type} {key : ρ → κ}

theorem nodup_toDict (t : Table key) : ((t.rows.map fun r => (key r, r)).map Prod.fst).Nodup := by
  rw [List.map_map]
  exact t.nodup

/-- The dictionary from the keys of the rows to the rows. -/
def toDict (t : Table key) : Dict κ ρ := ⟨t.rows.map fun r => (key r, r), t.nodup_toDict⟩

variable [DecidableEq κ]

theorem get?_toDict (t : Table key) (k : κ) : t.toDict.get? k = t.find? k := by
  rw [Dict.get?, Table.find?, Table.find?, toDict, List.find?_map, Option.map_map]
  exact Option.map_id'

/-- A row with a key that is not taken. -/
theorem toDict_insert? {t t' : Table key} {r : ρ} (h : t.insert? r = some t') :
    t'.toDict = t.toDict.set (key r, r) := by
  have hnone : key r ∉ t.toDict.rows.map Prod.fst := by
    rw [toDict, List.map_map]
    exact find?_eq_none_iff.mp (insert?_eq_some_iff.mp h).1
  unfold Table.set
  rw [dif_neg hnone]
  simp [toDict, insert?_rows h]

/-- `INSERT OR IGNORE` in a table is `setdefault` in its dictionary. -/
theorem setdefault_toDict (t : Table key) (r : ρ) : t.toDict.setdefault (key r) r =
    ((t.find? (key r)).getD r, ((t.insert? r).getD t).toDict) := by
  rw [Dict.setdefault, get?_toDict]
  rcases hfind : t.find? (key r) with _ | existing
  · rcases hinsert : t.insert? r with _ | t'
    · obtain ⟨r', hr'⟩ := insert?_eq_none_iff.mp hinsert
      cases hfind.symm.trans hr'
    · simp [toDict_insert? hinsert]
  · rw [insert?_eq_none_iff.mpr ⟨existing, hfind⟩]
    rfl

/-- After `INSERT OR IGNORE`, there is a row with the key. -/
theorem find?_getD_insert? (t : Table key) (r : ρ) :
    ((t.insert? r).getD t).find? (key r) = some ((t.find? (key r)).getD r) := by
  rcases hinsert : t.insert? r with _ | t'
  · obtain ⟨r', hr'⟩ := insert?_eq_none_iff.mp hinsert
    rw [Option.getD_none, hr', Option.getD_some]
  · rw [Option.getD_some, find?_insert? hinsert, if_pos rfl,
      (insert?_eq_some_iff.mp hinsert).1, Option.getD_none]

end Table

/-! ### Operations -/

/-- The operations, with the ids that they draw and the times that they read. -/
inductive ResourceOp
  | createAssistant (tenantId id templateId : String) (revisionId : UUID) (createdAt : Datetime)
  | getAssistant (tenantId id : String)
  | listAssistants (tenantId : String)
  | createSession (tenantId : String) (id : UUID) (createdAt : Datetime)
  | getSession (id : UUID)
  | ensureSession (session : SessionRecord)
  | countTenants

/-- What they return. -/
inductive ResourceAnswer
  | assistant (item : AssistantRecord)
  | assistants (items : List AssistantRecord)
  | session (value : SessionRecord)
  | tenants (ids : List String)
deriving DecidableEq

/-- The same answer, up to the order of the aliases in a list. -/
inductive ResourceAnswer.Same :
    Except StoreError ResourceAnswer → Except StoreError ResourceAnswer → Prop
  | refl (r : Except StoreError ResourceAnswer) : Same r r
  | perm {items items' : List AssistantRecord} (h : items.Perm items') :
      Same (.ok (.assistants items)) (.ok (.assistants items'))

/-! ### In memory -/

/-- The dictionaries. -/
structure InMemoryResourceStore where
  sessions : Dict UUID SessionRecord
  assistants : Dict (String × String) AssistantRecord

namespace InMemoryResourceStore

/-- `create_assistant`. -/
def createAssistant (store : InMemoryResourceStore) (tenantId id templateId : String)
    (revisionId : UUID) (createdAt : Datetime) :
    Except StoreError AssistantRecord × InMemoryResourceStore :=
  let item : AssistantRecord := ⟨id, tenantId, templateId, revisionId, createdAt⟩
  let found := store.assistants.setdefault (tenantId, id) item
  (if found.1.templateId ≠ templateId ∨ found.1.revisionId ≠ revisionId then
      .error (.valueError "assistant id already has a different revision")
    else .ok found.1, { store with assistants := found.2 })

/-- `get_assistant`. -/
def getAssistant (store : InMemoryResourceStore) (tenantId id : String) :
    Except StoreError AssistantRecord :=
  foundOr id (store.assistants.get? (tenantId, id))

/-- The order of the keys of aliases, which are pairs. -/
def itemLe (a b : (String × String) × AssistantRecord) : Prop :=
  a.1.1 < b.1.1 ∨ a.1.1 = b.1.1 ∧ a.1.2 ≤ b.1.2

instance : DecidableRel itemLe := fun _ _ => inferInstanceAs (Decidable (_ ∨ _))

/-- `list_assistants`. -/
def listAssistants (store : InMemoryResourceStore) (tenantId : String) : List AssistantRecord :=
  ((store.assistants.rows.insertionSort itemLe).filter fun e => e.1.1 = tenantId).map Prod.snd

/-- `create_session`, with the id that it draws and the time that it reads. -/
def createSession (store : InMemoryResourceStore) (tenantId : String) (id : UUID)
    (createdAt : Datetime) : SessionRecord × InMemoryResourceStore :=
  (⟨id, tenantId, createdAt⟩,
    { store with sessions := store.sessions.set (id, ⟨id, tenantId, createdAt⟩) })

/-- `get_session`. -/
def getSession (store : InMemoryResourceStore) (id : UUID) : Except StoreError SessionRecord :=
  foundOr id.str (store.sessions.get? id)

/-- `ensure_session`. -/
def ensureSession (store : InMemoryResourceStore) (session : SessionRecord) :
    Except StoreError SessionRecord × InMemoryResourceStore :=
  let found := store.sessions.setdefault session.id session
  (if found.1.tenantId ≠ session.tenantId then .error (.valueError "session tenant mismatch")
    else .ok found.1, { store with sessions := found.2 })

/-- `count_tenants`. -/
def countTenants (store : InMemoryResourceStore) : List String :=
  (store.sessions.rows.map fun e => e.2.tenantId).dedup.insertionSort (· ≤ ·)

/-- An operation. -/
def apply (op : ResourceOp) (store : InMemoryResourceStore) :
    Except StoreError ResourceAnswer × InMemoryResourceStore :=
  match op with
  | .createAssistant tenantId id templateId revisionId createdAt =>
    let (r, store) := store.createAssistant tenantId id templateId revisionId createdAt
    (r.map .assistant, store)
  | .getAssistant tenantId id => ((store.getAssistant tenantId id).map .assistant, store)
  | .listAssistants tenantId => (.ok (.assistants (store.listAssistants tenantId)), store)
  | .createSession tenantId id createdAt =>
    let (value, store) := store.createSession tenantId id createdAt
    (.ok (.session value), store)
  | .getSession id => ((store.getSession id).map .session, store)
  | .ensureSession session =>
    let (r, store) := store.ensureSession session
    (r.map .session, store)
  | .countTenants => (.ok (.tenants store.countTenants), store)

end InMemoryResourceStore

/-! ### In the database -/

/-- The program of an operation. -/
def ResourceOp.program : ResourceOp → Resourcing ResourceAnswer
  | .createAssistant tenantId id templateId revisionId createdAt => do
    let item ← OpenRath.createAssistant tenantId id templateId revisionId createdAt
    pure (.assistant item)
  | .getAssistant tenantId id =>
    .call (.getAssistant tenantId id) fun found => Proc.ofExcept (found.map .assistant)
  | .listAssistants tenantId => .call (.listAssistants tenantId) fun items =>
      .ret (.assistants items)
  | .createSession tenantId id createdAt => do
    let value ← OpenRath.createSession tenantId id createdAt
    pure (.session value)
  | .getSession id => .call (.getSession id) fun found => Proc.ofExcept (found.map .session)
  | .ensureSession session => do
    let value ← OpenRath.ensureSession session
    pure (.session value)
  | .countTenants => .call .countTenants fun ids => .ret (.tenants ids)

/-- The ids that are drawn for sessions are not taken. -/
def Drawn : ResourceCmd → ResourceTables → Prop
  | .insertSession value, x => x.sessions.find? value.id = none
  | _, _ => True

instance : (c : ResourceCmd) → (x : ResourceTables) → Decidable (Drawn c x)
  | .insertSession value, x => inferInstanceAs (Decidable (x.sessions.find? value.id = none))
  | .insertAssistant _, _ | .getAssistant _ _, _ | .listAssistants _, _
  | .insertSessionOrIgnore _, _ | .getSession _, _ | .countTenants, _ => isTrue trivial

/-- The tables as dictionaries. -/
def ResourceTables.inMemory (x : ResourceTables) : InMemoryResourceStore :=
  ⟨x.sessions.toDict, x.assistants.toDict⟩

/-! ### The database implements the operations -/

section Implements

open Proc ResourceTables

theorem others_exec (c : ResourceCmd) (x : ResourceTables) : Others x (c.exec x).2 :=
  .single ⟨c, rfl⟩

theorem inMemory_insertAssistant (x : ResourceTables) (item : AssistantRecord) :
    ((ResourceCmd.insertAssistant item).exec x).2.inMemory =
      { x.inMemory with assistants := ((x.assistants.insert? item).getD x.assistants).toDict } := by
  rw [ResourceCmd.exec]
  cases x.assistants.insert? item <;> rfl

theorem inMemory_insertSessionOrIgnore (x : ResourceTables) (value : SessionRecord) :
    ((ResourceCmd.insertSessionOrIgnore value).exec x).2.inMemory =
      { x.inMemory with sessions := ((x.sessions.insert? value).getD x.sessions).toDict } := by
  rw [ResourceCmd.exec]
  cases x.sessions.insert? value <;> rfl

/-- The row of an alias after an attempt to insert it, whatever the others do then. -/
theorem find?_of_insertAssistant {x y : ResourceTables} {item : AssistantRecord}
    (hy : Others ((ResourceCmd.insertAssistant item).exec x).2 y) :
    y.assistants.find? item.key = some ((x.assistants.find? item.key).getD item) := by
  refine hy.extends.assistant _ _ ?_
  rw [← Table.find?_getD_insert?, ResourceCmd.exec]
  cases x.assistants.insert? item <;> rfl

/-- The row of a session after an attempt to insert it, whatever the others do then. -/
theorem find?_of_insertSessionOrIgnore {x y : ResourceTables} {value : SessionRecord}
    (hy : Others ((ResourceCmd.insertSessionOrIgnore value).exec x).2 y) :
    y.sessions.find? value.id = some ((x.sessions.find? value.id).getD value) := by
  refine hy.extends.session _ _ ?_
  rw [← Table.find?_getD_insert?, ResourceCmd.exec]
  cases x.sessions.insert? value <;> rfl

variable (x : ResourceTables)

/-- What was found is accepted under a condition, or else refused. -/
theorem settled_accept {α : Type} {c d : Prop} [Decidable c] [Decidable d] (hd : d ↔ ¬ c)
    (e : StoreError) (a : α) (f : α → ResourceAnswer) :
    ((throwUnless c e >>= fun _ => pure a) >>= fun a => pure (f a) :
      Resourcing ResourceAnswer).Settled (fun c (_ : Unit) x => c.exec x) Others Drawn inMemory
      ResourceAnswer.Same ((if d then .error e else .ok a : Except StoreError α).map f) x := by
  by_cases hc : c
  · rw [if_neg (fun h => hd.mp h hc), throwUnless, if_pos hc]
    exact .refl _
  · rw [if_pos (hd.mpr hc), throwUnless, if_neg hc]
    exact .refl _

theorem implements_createAssistant (tenantId id templateId : String) (revisionId : UUID)
    (createdAt : Datetime) :
    (ResourceOp.createAssistant tenantId id templateId revisionId createdAt).program.Implements
      (fun c (_ : Unit) x => c.exec x) Others Drawn inMemory InMemoryResourceStore.apply
      ResourceAnswer.Same (.createAssistant tenantId id templateId revisionId createdAt) x := by
  let item : AssistantRecord := ⟨id, tenantId, templateId, revisionId, createdAt⟩
  refine implements_call_effect fun x₁ _ _ _ => ⟨others_exec _ _, ?_, ?_⟩
  · rw [inMemory_insertAssistant]
    exact congrArg (fun found => { x₁.inMemory with assistants := found.2 })
      (Table.setdefault_toDict x₁.assistants item).symm
  · refine settled_call fun x₂ hx₂ _ _ => ⟨others_exec _ _, rfl, ?_⟩
    have hanswer : (x₁.inMemory.assistants.setdefault item.key item).1 =
        (x₁.assistants.find? item.key).getD item :=
      congrArg Prod.fst (Table.setdefault_toDict x₁.assistants item)
    have hrow : ((ResourceCmd.getAssistant tenantId id).exec x₂).1 =
        .ok (x₁.inMemory.assistants.setdefault item.key item).1 := by
      rw [hanswer]
      exact foundOr_eq_ok_iff.mpr (find?_of_insertAssistant hx₂)
    rw [hrow]
    exact settled_accept _ not_and_or.symm _ _ _

theorem implements_ensureSession (session : SessionRecord) :
    (ResourceOp.ensureSession session).program.Implements
      (fun c (_ : Unit) x => c.exec x) Others Drawn inMemory InMemoryResourceStore.apply
      ResourceAnswer.Same (.ensureSession session) x := by
  refine implements_call_effect fun x₁ _ _ _ => ⟨others_exec _ _, ?_, ?_⟩
  · rw [inMemory_insertSessionOrIgnore]
    exact congrArg (fun found => { x₁.inMemory with sessions := found.2 })
      (Table.setdefault_toDict x₁.sessions session).symm
  · refine settled_call fun x₂ hx₂ _ _ => ⟨others_exec _ _, rfl, ?_⟩
    have hanswer : (x₁.inMemory.sessions.setdefault session.id session).1 =
        (x₁.sessions.find? session.id).getD session :=
      congrArg Prod.fst (Table.setdefault_toDict x₁.sessions session)
    have hrow : ((ResourceCmd.getSession session.id).exec x₂).1 =
        .ok (x₁.inMemory.sessions.setdefault session.id session).1 := by
      rw [hanswer]
      exact foundOr_eq_ok_iff.mpr (find?_of_insertSessionOrIgnore hx₂)
    rw [hrow]
    exact settled_accept _ Iff.rfl _ _ _

/-- A session whose id is not taken is inserted. -/
theorem implements_createSession (tenantId : String) (id : UUID) (createdAt : Datetime) :
    (ResourceOp.createSession tenantId id createdAt).program.Implements
      (fun c (_ : Unit) x => c.exec x) Others Drawn inMemory InMemoryResourceStore.apply
      ResourceAnswer.Same (.createSession tenantId id createdAt) x := by
  let value : SessionRecord := ⟨id, tenantId, createdAt⟩
  refine implements_call_effect fun x₁ _ hdrawn _ => ⟨others_exec _ _, ?_⟩
  obtain ⟨sessions, hinsert⟩ : ∃ sessions, x₁.sessions.insert? value = some sessions := by
    rcases hinsert : x₁.sessions.insert? value with _ | sessions
    · obtain ⟨r, hr⟩ := Table.insert?_eq_none_iff.mp hinsert
      cases hr.symm.trans hdrawn
    · exact ⟨sessions, rfl⟩
  have hexec : (ResourceCmd.insertSession value).exec x₁ =
      (.ok (), { x₁ with sessions := sessions }) := by
    rw [ResourceCmd.exec, hinsert]
  rw [hexec]
  refine ⟨?_, .refl _⟩
  exact congrArg (fun sessions => { x₁.inMemory with sessions := sessions })
    (Table.toDict_insert? hinsert)

/-! ### Reading -/

theorem settled_ofExcept (r : Except StoreError ResourceAnswer) :
    (ofExcept r : Resourcing ResourceAnswer).Settled (fun c (_ : Unit) x => c.exec x) Others Drawn
      inMemory ResourceAnswer.Same r x := by
  cases r <;> exact .refl _

/-- The two lists of the aliases of a tenant. -/
theorem perm_listAssistants (x : ResourceTables) (tenantId : String) :
    ((x.assistants.rows.filter fun item => item.tenantId = tenantId).insertionSort
      AssistantRecord.before).Perm (x.inMemory.listAssistants tenantId) := by
  refine (List.perm_insertionSort _ _).trans ?_
  have hsorted := (List.perm_insertionSort InMemoryResourceStore.itemLe
    x.inMemory.assistants.rows).filter fun e => decide (e.1.1 = tenantId)
  refine .trans (.of_eq ?_) (hsorted.map Prod.snd).symm
  have hrows : x.inMemory.assistants.rows = x.assistants.rows.map fun r => (r.key, r) := rfl
  rw [hrows, List.filter_map, List.map_map]
  exact (List.map_id _).symm

/-- **The stores are alike.** Whatever the others do, the program of an operation implements it. -/
theorem implements_program (op : ResourceOp) :
    op.program.Implements (fun c (_ : Unit) x => c.exec x) Others Drawn inMemory
      InMemoryResourceStore.apply ResourceAnswer.Same op x := by
  cases op with
  | createAssistant tenantId id templateId revisionId createdAt =>
    exact implements_createAssistant x tenantId id templateId revisionId createdAt
  | createSession tenantId id createdAt => exact implements_createSession x tenantId id createdAt
  | ensureSession session => exact implements_ensureSession x session
  | getAssistant tenantId id =>
    refine implements_call_effect fun x₁ _ _ _ => ⟨others_exec _ _, rfl, ?_⟩
    rw [InMemoryResourceStore.apply, InMemoryResourceStore.getAssistant, inMemory,
      Table.get?_toDict]
    exact settled_ofExcept x₁ _
  | getSession id =>
    refine implements_call_effect fun x₁ _ _ _ => ⟨others_exec _ _, rfl, ?_⟩
    rw [InMemoryResourceStore.apply, InMemoryResourceStore.getSession, inMemory, Table.get?_toDict]
    exact settled_ofExcept x₁ _
  | listAssistants tenantId =>
    exact implements_call_effect fun x₁ _ _ _ =>
      ⟨others_exec _ _, rfl, .perm (perm_listAssistants x₁ tenantId)⟩
  | countTenants =>
    refine implements_call_effect fun x₁ _ _ _ => ⟨others_exec _ _, rfl, ?_⟩
    have htenants : x₁.inMemory.countTenants = (ResourceCmd.countTenants.exec x₁).1 := by
      rw [InMemoryResourceStore.countTenants, inMemory, Table.toDict, List.map_map]
      rfl
    rw [InMemoryResourceStore.apply, htenants]
    exact .refl _

end Implements

/-- The operations are executed in the database, their transactions in the order of a schedule. -/
def ResourceTables.serve (x : ResourceTables) (ops : List ResourceOp)
    (schedule : List (ℕ × Unit)) :
    Pool ResourceCmd ResourceCmd.Answer StoreError ResourceAnswer ResourceTables :=
  Pool.run (fun c (_ : Unit) x => c.exec x) ⟨x, ops.map ResourceOp.program⟩ schedule

/-- Along a schedule, the ids that are drawn for sessions are not taken. -/
def ResourceTables.DrawnAlong (x : ResourceTables) (ops : List ResourceOp)
    (schedule : List (ℕ × Unit)) : Prop :=
  Pool.Along (fun c (_ : Unit) x => c.exec x) (Pool.Expected Drawn) ⟨x, ops.map ResourceOp.program⟩
    schedule

/-- Starting with the contents of the tables `x`, the dictionaries come to have the contents of the
database in `y` and give its answers, if the operations are executed in this order. -/
abbrev ResourceTables.Explains (x : ResourceTables) (ops : List ResourceOp)
    (order : List (ℕ × Except StoreError ResourceAnswer))
    (y : Pool ResourceCmd ResourceCmd.Answer StoreError ResourceAnswer ResourceTables) : Prop :=
  Pool.Linearization ResourceTables.inMemory InMemoryResourceStore.apply ResourceAnswer.Same ops
    x.inMemory order y

/-- **Linearizability.** Whatever the servers ask of the database, and however their transactions
follow one another, there is an order of the operations in which the dictionaries give the same
answers, up to the order of the aliases in a list, and come to have the same contents. An operation
that has been answered in a first part of the run precedes those that have not begun. -/
theorem resources_linearizable (x : ResourceTables) (ops : List ResourceOp)
    (past future : List (ℕ × Unit)) (hdrawn : x.DrawnAlong ops (past ++ future)) :
    ∃ order more, x.Explains ops order (x.serve ops past) ∧
      x.Explains ops (order ++ more) (x.serve ops (past ++ future)) ∧
      ∀ e ∈ order, e.1 ∈ past.map Prod.fst := by
  have hrefl : ∀ x, ResourceTables.Others x x := fun _ => .refl
  have htrans : ∀ x y z, ResourceTables.Others x y → ResourceTables.Others y z →
      ResourceTables.Others x z := fun _ _ _ h h' => h.trans h'
  have himplements : ∀ (j : ℕ) op p, ops[j]? = some op →
      (ops.map ResourceOp.program)[j]? = some p →
      p.Implements (fun c (_ : Unit) x => c.exec x) ResourceTables.Others Drawn
        ResourceTables.inMemory InMemoryResourceStore.apply ResourceAnswer.Same op x := by
    intro j op p hop hp
    rw [List.getElem?_map, hop] at hp
    cases hp
    exact implements_program x op
  exact Pool.exists_linearization hrefl htrans (List.length_map _) himplements hdrawn

/-! ### A sample -/

namespace Sample

/-- Two servers ask for an alias with different revisions, and one of them for a session. -/
def resourceOps : List ResourceOp :=
  [.createAssistant "acme" "review" "reviewer" ⟨1⟩ (.utc (reading 0)),
    .createAssistant "acme" "review" "reviewer" ⟨2⟩ (.utc (reading 1)),
    .createSession "acme" ⟨7⟩ (.utc (reading 2)), .listAssistants "acme"]

/-- The second server is first to insert its row, so that the first one is refused. -/
def resourceSchedule : List (ℕ × Unit) := [1, 0, 0, 2, 1, 3].map fun j => (j, ())

theorem review_linearizable :
    (ResourceTables.empty.serve resourceOps resourceSchedule).outcome? 0 =
        some (.error (.valueError "assistant id already has a different revision")) ∧
      ∃ order more,
        ResourceTables.empty.Explains resourceOps order
          (ResourceTables.empty.serve resourceOps (resourceSchedule.take 3)) ∧
        ResourceTables.empty.Explains resourceOps (order ++ more)
          (ResourceTables.empty.serve resourceOps
            (resourceSchedule.take 3 ++ resourceSchedule.drop 3)) ∧
        ∀ e ∈ order, e.1 ∈ (resourceSchedule.take 3).map Prod.fst := by
  have hdrawn : ResourceTables.empty.DrawnAlong resourceOps
      (resourceSchedule.take 3 ++ resourceSchedule.drop 3) := by
    unfold ResourceTables.DrawnAlong
    decide +kernel
  exact ⟨by decide +kernel, resources_linearizable .empty resourceOps (resourceSchedule.take 3)
    (resourceSchedule.drop 3) hdrawn⟩

end Sample

end OpenRath
