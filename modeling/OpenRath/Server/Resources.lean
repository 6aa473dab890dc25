import OpenRath.Library.Completion
import OpenRath.Library.Table
import OpenRath.Runtime.Sqlite.Histories
import OpenRath.Runtime.World

/-!
# Sessions and aliases of assistants

The server keeps its sessions and the aliases of its assistants in two tables of the database
(`SQLiteResourceStore` in `src/rath/server/resources.py`). Rows are inserted, and neither updated
nor deleted. An insertion with `OR IGNORE` leaves a row with the same key alone, so that the first
one stays for everybody: `create_assistant` and `ensure_session` insert a row in one transaction,
read the row that is there in another one, and accept it or not.

The feedback, which no function of the store reads, is left out.

## Main definitions

* `AssistantRecord`, `SessionRecord`, `ResourceTables`.
* `ResourceCmd`, `ResourceCmd.exec`: the transactions.
* `createAssistant`, `ensureSession`, `createSession`: the programs.
* `ResourceTables.Others`: what others do to the tables.

## Main results

* `ResourceTables.extends_exec`: a transaction leaves the rows that are there alone.
* `createAssistant_agreed`: whoever creates an alias gets the same record.
-/

namespace OpenRath

/-- An alias of an assistant. -/
structure AssistantRecord where
  id : String
  tenantId : String
  templateId : String
  revisionId : UUID
  createdAt : Datetime
deriving DecidableEq

/-- A session of the server. -/
structure SessionRecord where
  id : UUID
  tenantId : String
  createdAt : Datetime
deriving DecidableEq

/-- The primary key of an alias. -/
def AssistantRecord.key (item : AssistantRecord) : String × String := (item.tenantId, item.id)

/-- The tables. -/
structure ResourceTables where
  assistants : Table AssistantRecord.key
  sessions : Table SessionRecord.id

/-- The tables before the first request. -/
def ResourceTables.empty : ResourceTables := ⟨.empty, .empty⟩

/-! ### Transactions -/

/-- The transactions of the store. -/
inductive ResourceCmd
  /-- `INSERT OR IGNORE INTO server_assistants`. -/
  | insertAssistant (item : AssistantRecord)
  /-- `get_assistant`. -/
  | getAssistant (tenantId id : String)
  /-- `list_assistants`. -/
  | listAssistants (tenantId : String)
  /-- `INSERT INTO server_sessions`. -/
  | insertSession (value : SessionRecord)
  /-- `INSERT OR IGNORE INTO server_sessions`. -/
  | insertSessionOrIgnore (value : SessionRecord)
  /-- `get_session`. -/
  | getSession (id : UUID)
  /-- `count_tenants`. -/
  | countTenants

/-- What a transaction answers. -/
def ResourceCmd.Answer : ResourceCmd → Type
  | insertAssistant _ | insertSessionOrIgnore _ => Unit
  | insertSession _ => Except StoreError Unit
  | getAssistant _ _ => Except StoreError AssistantRecord
  | getSession _ => Except StoreError SessionRecord
  | listAssistants _ => List AssistantRecord
  | countTenants => List String

/-- The order `ORDER BY created_at, id` of aliases. -/
def AssistantRecord.before (a b : AssistantRecord) : Prop :=
  a.createdAt.isoformat < b.createdAt.isoformat ∨
    a.createdAt.isoformat = b.createdAt.isoformat ∧ a.id ≤ b.id

instance : DecidableRel AssistantRecord.before := fun _ _ => inferInstanceAs (Decidable (_ ∨ _))

/-- A row, or else the `KeyError` of a function that looks for it. -/
def foundOr {α : Type} (key : String) : Option α → Except StoreError α
  | some row => .ok row
  | none => .error (.keyError key)

/-- The execution of a transaction. -/
def ResourceCmd.exec : (c : ResourceCmd) → ResourceTables → c.Answer × ResourceTables
  | .insertAssistant item, x =>
    ((), match x.assistants.insert? item with
      | some assistants => { x with assistants := assistants }
      | none => x)
  | .getAssistant tenantId id, x => (foundOr id (x.assistants.find? (tenantId, id)), x)
  | .listAssistants tenantId, x =>
    ((x.assistants.rows.filter fun item => item.tenantId = tenantId).insertionSort
      AssistantRecord.before, x)
  | .insertSession value, x =>
    match x.sessions.insert? value with
    | some sessions => (.ok (), { x with sessions := sessions })
    | none => (.error .integrityError, x)
  | .insertSessionOrIgnore value, x =>
    ((), match x.sessions.insert? value with
      | some sessions => { x with sessions := sessions }
      | none => x)
  | .getSession id, x => (foundOr id.str (x.sessions.find? id), x)
  | .countTenants, x =>
    ((x.sessions.rows.map SessionRecord.tenantId).dedup.insertionSort (· ≤ ·), x)

/-! ### Rows stay -/

/-- All rows are in the other tables as well. -/
structure ResourceTables.Extends (x y : ResourceTables) : Prop where
  assistant : ∀ key item, x.assistants.find? key = some item → y.assistants.find? key = some item
  session : ∀ id value, x.sessions.find? id = some value → y.sessions.find? id = some value

namespace ResourceTables

theorem Extends.refl (x : ResourceTables) : x.Extends x := ⟨fun _ _ h => h, fun _ _ h => h⟩

theorem Extends.trans (x y z : ResourceTables) (h : x.Extends y) (h' : y.Extends z) :
    x.Extends z :=
  ⟨fun key item hx => h'.assistant key item (h.assistant key item hx),
    fun id value hx => h'.session id value (h.session id value hx)⟩

/-- A row that is inserted leaves the other ones alone. -/
theorem find?_of_insert? {κ ρ : Type} [DecidableEq κ] {key : ρ → κ} {t t' : Table key} {r row : ρ}
    (h : t.insert? r = some t') {k : κ} (hrow : t.find? k = some row) : t'.find? k = some row := by
  rw [Table.find?_insert? h]
  split_ifs with hk
  · rw [hk] at hrow
    cases (Table.insert?_eq_some_iff.mp h).1.symm.trans hrow
  · exact hrow

/-- A transaction leaves the rows that are there alone. -/
theorem extends_exec (c : ResourceCmd) (x : ResourceTables) : x.Extends (c.exec x).2 := by
  cases c with
  | insertAssistant item =>
    rw [ResourceCmd.exec]
    rcases h : x.assistants.insert? item with _ | assistants
    · exact .refl x
    · exact ⟨fun _ _ hrow => find?_of_insert? h hrow, fun _ _ hrow => hrow⟩
  | insertSession value | insertSessionOrIgnore value =>
    rw [ResourceCmd.exec]
    rcases h : x.sessions.insert? value with _ | sessions
    · exact .refl x
    · exact ⟨fun _ _ hrow => hrow, fun _ _ hrow => find?_of_insert? h hrow⟩
  | getAssistant | listAssistants | getSession | countTenants => exact .refl x

/-- The others execute any transactions. -/
def Others : ResourceTables → ResourceTables → Prop :=
  Relation.ReflTransGen fun x y => ∃ c : ResourceCmd, y = (c.exec x).2

theorem Others.extends {x y : ResourceTables} (h : x.Others y) : x.Extends y := by
  induction h with
  | refl => exact .refl x
  | tail _ hstep ih =>
    obtain ⟨c, rfl⟩ := hstep
    exact ih.trans _ _ _ (extends_exec c _)

end ResourceTables

/-! ### Programs -/

/-- A program of these transactions. -/
abbrev Resourcing (α : Type) : Type := Proc ResourceCmd ResourceCmd.Answer StoreError α

/-- `create_assistant`, with the time that it reads first. -/
def createAssistant (tenantId id templateId : String) (revisionId : UUID) (createdAt : Datetime) :
    Resourcing AssistantRecord :=
  .call (.insertAssistant ⟨id, tenantId, templateId, revisionId, createdAt⟩) fun _ =>
    .call (.getAssistant tenantId id) fun found => do
      let existing ← Proc.ofExcept found
      Proc.throwUnless (existing.templateId = templateId ∧ existing.revisionId = revisionId)
        (.valueError "assistant id already has a different revision")
      pure existing

/-- `create_session`, with the id that it draws and the time that it reads. -/
def createSession (tenantId : String) (id : UUID) (createdAt : Datetime) :
    Resourcing SessionRecord :=
  .call (.insertSession ⟨id, tenantId, createdAt⟩) fun inserted => do
    let _ ← Proc.ofExcept inserted
    pure ⟨id, tenantId, createdAt⟩

/-- `ensure_session`. -/
def ensureSession (session : SessionRecord) : Resourcing SessionRecord :=
  .call (.insertSessionOrIgnore session) fun _ =>
    .call (.getSession session.id) fun found => do
      let existing ← Proc.ofExcept found
      Proc.throwUnless (existing.tenantId = session.tenantId)
        (.valueError "session tenant mismatch")
      pure existing

section Agreement

open ResourceTables

variable {x y x' y' : ResourceTables} {trace trace' : List ((c : ResourceCmd) × c.Answer)}
  {item item' : AssistantRecord} {session given given' : SessionRecord}
  {tenantId id templateId templateId' : String} {revisionId revisionId' : UUID}
  {createdAt createdAt' : Datetime}

theorem foundOr_eq_ok_iff {α : Type} {key : String} {found : Option α} {a : α} :
    foundOr key found = .ok a ↔ found = some a := by
  cases found <;> simp [foundOr]

/-- An alias that was created is the one in the tables, and what was asked for. -/
theorem find?_of_createAssistant
    (h : (createAssistant tenantId id templateId revisionId createdAt).Completes
      (fun c (_ : Unit) x => c.exec x) Others x trace (.ok item) y) :
    y.assistants.find? (tenantId, id) = some item ∧ item.templateId = templateId ∧
      item.revisionId = revisionId := by
  have hrefl : ∀ x, Others x x := fun _ => .refl
  cases h with
  | call _ _ h =>
    cases h with
    | @call _ _ _ x₂ _ _ _ _ _ h =>
      obtain ⟨existing, hfound, h⟩ := h.exists_of_ofExcept_bind
      obtain ⟨_, x₃, _, _, hsame, h⟩ := h.exists_of_bind hrefl
      obtain ⟨-, hsame, hR₁⟩ := hsame.of_throwUnless
      cases h with
      | ret hR₂ =>
        have hrow : x₂.assistants.find? (tenantId, id) = some item := foundOr_eq_ok_iff.mp hfound
        refine ⟨hR₂.extends.assistant _ _ (hR₁.extends.assistant _ _ hrow), ?_⟩
        obtain ⟨hsame, -⟩ | ⟨-, herror⟩ := hsame
        · exact hsame
        · cases herror

/-- **Agreement.** Of any two that create an alias of a tenant, among any others, the one that ends
later gets the record that the other one got, and has asked for the same template and revision. -/
theorem createAssistant_agreed
    (h : (createAssistant tenantId id templateId revisionId createdAt).Completes
      (fun c (_ : Unit) x => c.exec x) Others x trace (.ok item) y)
    (h' : (createAssistant tenantId id templateId' revisionId' createdAt').Completes
      (fun c (_ : Unit) x => c.exec x) Others x' trace' (.ok item') y')
    (hlater : y.Others y') :
    item' = item ∧ templateId' = templateId ∧ revisionId' = revisionId := by
  obtain ⟨hrow, htemplate, hrevision⟩ := find?_of_createAssistant h
  obtain ⟨hrow', htemplate', hrevision'⟩ := find?_of_createAssistant h'
  cases hrow'.symm.trans (hlater.extends.assistant _ _ hrow)
  exact ⟨rfl, htemplate'.symm.trans htemplate, hrevision'.symm.trans hrevision⟩

end Agreement

/-! ### A sample -/

namespace Sample

/-- A request for an alias, alone. -/
def aliasRequest (s : Fin 1000) (x : ResourceTables) :
    List ((c : ResourceCmd) × c.Answer) × Option (Except StoreError AssistantRecord) ×
      ResourceTables :=
  (createAssistant "acme" "review" "reviewer" ⟨1⟩ (.utc (reading s))).complete
    (fun c (_ : Unit) x => c.exec x) () x

/-- Two requests for an alias, one after the other. -/
theorem alias_agreed : ∃ item item', (aliasRequest 0 .empty).2.1 = some (.ok item) ∧
    (aliasRequest 1 (aliasRequest 0 .empty).2.2).2.1 = some (.ok item') ∧
    item' = item ∧ "reviewer" = "reviewer" ∧ (⟨1⟩ : UUID) = ⟨1⟩ := by
  have hrefl : ∀ x, ResourceTables.Others x x := fun _ => .refl
  have hfirst : (aliasRequest 0 .empty).2.1 =
      some (.ok ⟨"review", "acme", "reviewer", ⟨1⟩, .utc (reading 0)⟩) := by decide +kernel
  have hsecond : (aliasRequest 1 (aliasRequest 0 .empty).2.2).2.1 =
      some (.ok ⟨"review", "acme", "reviewer", ⟨1⟩, .utc (reading 0)⟩) := by decide +kernel
  exact ⟨_, _, hfirst, hsecond, createAssistant_agreed (Proc.completes_complete hrefl hfirst)
    (Proc.completes_complete hrefl hsecond) (.tail (.tail .refl
      ⟨.insertAssistant ⟨"review", "acme", "reviewer", ⟨1⟩, .utc (reading 1)⟩, rfl⟩)
      ⟨.getAssistant "acme" "review", rfl⟩)⟩

end Sample

end OpenRath
