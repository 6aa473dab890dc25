import Mathlib.Data.Prod.Lex
import OpenRath.Library.NumberText
import OpenRath.Library.Paging
import OpenRath.Runtime.Sqlite.Histories
import OpenRath.Server.Requests

/-!
# Listing runs

The runs of a tenant are listed page by page (`list_runs` in `src/rath/server/app.py`). A page is
read with one row more than its limit, which tells whether there is a next one; its cursor is the
last run of the page, and the store looks up the time at which that run was created.

A run is never removed and keeps the time of its creation and its tenant, so the pages are those of
a growing table.

## Main definitions

* `RunListRequest`, `RunPage`, `RunListRequest.listRuns`: the endpoint.
* `RunRow.key`, `Run.key`: the order of the list.
* `RunsListed`: following the cursors, while the store is called in any way.

## Main results

* `RunsListed.enumerates`: what has been listed at any time.
* `RunsListed.complete`: the list is complete when there is no next page.
-/

namespace OpenRath

open SQLite Tx

/-! ### The endpoint -/

/-- A request for a page of runs: the caller as the provider has authenticated it, and the query. -/
structure RunListRequest where
  context : Option SecurityContext
  limit : Option String
  after : Option String

/-- A page of runs, with the parameter `after` of the next one. -/
structure RunPage where
  items : List Run
  next : Option String
deriving DecidableEq

/-- The page of the rows that were read, of which there may be one more than the limit. -/
def RunPage.ofValues (limit : ℤ) (values : List Run) : RunPage :=
  let page := values.take limit.toNat
  ⟨page, if limit < values.length then page.getLast?.map fun run => run.id.str else none⟩

/-- `UUID(after) if after else None`, without the `ValueError`. -/
def cursorId (t : Decimals) : Option String → Option (Option UUID)
  | none => some none
  | some after => if after = "" then some none else (UUID.ofText t after).map some

/-- `list_runs` of the server, where `list` is `list_runs` of the store. -/
def RunListRequest.listRuns (t : Decimals) (r : RunListRequest)
    (list : String → Option UUID → ℤ → Except StoreError (List Run)) : Except Failure RunPage := do
  let context ← authenticate r.context "run.read"
  match pageLimit t (r.limit.getD "50") 200, cursorId t r.after with
  | some limit, some after =>
    match list context.tenantId.val after (limit + 1) with
    | .ok values => .ok (.ofValues limit values)
    | .error (.keyError _) =>
      .error (.response ⟨"request.invalid_argument", "unknown pagination cursor", 400⟩)
    | .error e => .error (.raised e)
  | _, _ => .error (.response ⟨"request.invalid_argument", "invalid pagination cursor", 400⟩)

/-- What is behind a page. -/
theorem RunListRequest.exists_of_listRuns {t : Decimals} {r : RunListRequest}
    {list : String → Option UUID → ℤ → Except StoreError (List Run)} {page : RunPage}
    (h : r.listRuns t list = .ok page) : ∃ context limit after values, r.context = some context ∧
      pageLimit t (r.limit.getD "50") 200 = some limit ∧ cursorId t r.after = some after ∧
      list context.tenantId.val after (limit + 1) = .ok values ∧ page = .ofValues limit values := by
  rw [RunListRequest.listRuns.eq_def] at h
  rcases hcontext : authenticate r.context "run.read" with e | context
  · rw [hcontext] at h
    cases h
  rw [hcontext] at h
  rcases hlimit : pageLimit t (r.limit.getD "50") 200 with _ | limit
  · rw [hlimit] at h
    cases h
  rcases hafter : cursorId t r.after with _ | after
  · rw [hlimit, hafter] at h
    cases h
  rw [hlimit, hafter] at h
  rcases hlist : list context.tenantId.val after (limit + 1) with e | values
  · change (match list context.tenantId.val after (limit + 1) with
      | .ok values => _
      | .error (.keyError _) => _
      | .error e => _) = _ at h
    rw [hlist] at h
    cases e <;> cases h
  · change (match list context.tenantId.val after (limit + 1) with
      | .ok values => _
      | .error (.keyError _) => _
      | .error e => _) = _ at h
    rw [hlist] at h
    exact ⟨context, limit, after, values, (authenticate_eq_ok_iff.mp hcontext).1, rfl, rfl, hlist,
      (Except.ok.inj h).symm⟩

theorem RunListRequest.listRuns_eq_ok {t : Decimals} (r : RunListRequest)
    {list : String → Option UUID → ℤ → Except StoreError (List Run)} {context : SecurityContext}
    {limit : ℤ} {after : Option UUID} {values : List Run}
    (hcontext : authenticate r.context "run.read" = .ok context)
    (hlimit : pageLimit t (r.limit.getD "50") 200 = some limit)
    (hafter : cursorId t r.after = some after)
    (hlist : list context.tenantId.val after (limit + 1) = .ok values) :
    r.listRuns t list = .ok (.ofValues limit values) := by
  rw [RunListRequest.listRuns.eq_def, hcontext, hlimit, hafter]
  change (match list context.tenantId.val after (limit + 1) with
    | .ok values => _
    | .error (.keyError _) => _
    | .error e => _) = _
  rw [hlist]

/-- The endpoint on the tables of the SQLite store. Reading a page leaves them as they are. -/
def RunListRequest.answer (sha : Sha256) (t : Decimals) (r : RunListRequest)
    (clock : ℕ → ClockReading) (db : Database) : Except Failure RunPage :=
  r.listRuns t fun tenantId after limit =>
    (perform sha ⟨.listRuns tenantId after (some limit) none [], clock⟩ db).1

/-! ### The order -/

/-- The key of a row in the order of the list: when the run was created, and its id. -/
def RunRow.key (row : RunRow) : List Char ×ₗ UUID := toLex (row.createdAt.isoformat, row.id)

/-- The key of a run. -/
def Run.key (run : Run) : List Char ×ₗ UUID := toLex (run.createdAt.isoformat, run.id)

theorem createdBefore_iff_key_le {a b : RunRow} : SQLite.createdBefore a b ↔ a.key ≤ b.key := by
  rw [SQLite.createdBefore, RunRow.key, RunRow.key, Prod.Lex.toLex_le_toLex]

/-- Runs created in UTC are in the order of the times of their creation. -/
theorem Run.key_lt_iff_of_isUtc {a b : Run} (ha : a.createdAt.IsUtc) (hb : b.createdAt.IsUtc) :
    a.key < b.key ↔ a.createdAt.instant < b.createdAt.instant ∨
      a.createdAt.instant = b.createdAt.instant ∧ a.id < b.id := by
  rw [Run.key, Run.key, Prod.Lex.toLex_lt_toLex, Datetime.isoformat_utc_lt_iff ha hb,
    Datetime.isoformat_utc_eq_iff ha hb]

/-- The keys of the runs of a tenant. -/
def runKeys (tenantId : String) (db : Database) : Set (List Char ×ₗ UUID) :=
  {k | ∃ row ∈ db.runs.rows, row.tenantId = tenantId ∧ row.key = k}

/-! ### What the store answers -/

section Store

variable {sha : Sha256} {tenantId : String} {after : Option UUID} {limit : ℤ}
  {clock : ℕ → ClockReading} {db : Database} {values : List Run}

/-- The runs that rows are read as agree with them. -/
theorem map_of_mapM_runFromRow {β : Type} {f : RunRow → β} {g : Run → β}
    (hfg : ∀ row h, g (row.toRun h) = f row) {rows : List RunRow}
    (h : rows.mapM runFromRow = .ok values) : values.map g = rows.map f := by
  induction rows generalizing values with
  | nil =>
    cases h
    rfl
  | cons row rows ih =>
    rw [List.mapM_cons] at h
    rcases hrow : runFromRow row with e | run
    · rw [hrow] at h
      cases h
    · rcases hrows : rows.mapM runFromRow with e | runs
      · rw [hrow, hrows] at h
        cases h
      · rw [hrow, hrows] at h
        obtain rfl : run :: runs = values := Except.ok.inj h
        obtain ⟨haware, rfl⟩ := runFromRow_eq_ok.mp hrow
        rw [List.map_cons, List.map_cons, ih hrows, hfg]

/-- The rows of a tenant after a row, in the order of the list. -/
def rowsAfter (tenantId : String) (cursor : Option RunRow) (db : Database) : List RunRow :=
  (db.runs.rows.filter fun row => row.tenantId = tenantId ∧
    ∀ a ∈ cursor, ¬ SQLite.createdBefore row a).insertionSort SQLite.createdBefore

theorem mem_rowsAfter {cursor : Option RunRow} {row : RunRow} :
    row ∈ rowsAfter tenantId cursor db ↔ row ∈ db.runs.rows ∧ row.tenantId = tenantId ∧
      ∀ a ∈ cursor, a.key < row.key := by
  rw [rowsAfter, List.mem_insertionSort, List.mem_filter]
  simp [createdBefore_iff_key_le]

/-- The rows after a row are in order, and no two of them have the same key. -/
theorem pairwise_key_rowsAfter (tenantId : String) (cursor : Option RunRow) (db : Database) :
    ((rowsAfter tenantId cursor db).map RunRow.key).Pairwise (· < ·) := by
  have htotal : Std.Total SQLite.createdBefore := ⟨fun a b => by
    rw [createdBefore_iff_key_le, createdBefore_iff_key_le]
    exact le_total a.key b.key⟩
  have htrans : IsTrans RunRow SQLite.createdBefore := ⟨fun a b c hab hbc => by
    rw [createdBefore_iff_key_le] at hab hbc ⊢
    exact hab.trans hbc⟩
  have hids : ((rowsAfter tenantId cursor db).map RunRow.id).Nodup := by
    rw [rowsAfter, ((List.perm_insertionSort _ _).map RunRow.id).nodup_iff]
    exact db.runs.nodup.sublist (List.filter_sublist.map RunRow.id)
  have hsorted : (rowsAfter tenantId cursor db).Pairwise SQLite.createdBefore :=
    List.pairwise_insertionSort _ _
  rw [List.pairwise_map]
  refine (hsorted.and (List.pairwise_map.mp hids)).imp fun {a b} h => ?_
  refine lt_of_le_of_ne (createdBefore_iff_key_le.mp h.1) fun hkey => h.2 ?_
  exact congrArg (fun k => (ofLex k).2) hkey

/-- The row after which a page starts. -/
def IsCursor (db : Database) (tenantId : String) (after : Option UUID) (cursor : Option RunRow) :
    Prop :=
  match after with
  | none => cursor = none
  | some i => ∃ row, db.runs.find? i = some row ∧ row.tenantId = tenantId ∧ cursor = some row

/-- `list_runs` for a page. -/
theorem listRuns_eq (tenantId : String) (after : Option UUID) (limit : ℤ) :
    SQLite.listRuns tenantId after (some limit) none [] = (do
      raiseUnless (∀ n ∈ some limit, 1 ≤ n) (.valueError "limit must be positive")
      let cursor ← cursorRow tenantId after
      let rows ← query fun c => rowsAfter tenantId cursor c.db
      ofExcept ((rows.take limit.toNat).mapM runFromRow)) := by
  have hfilter : ∀ (cursor : Option RunRow) (c : Connection),
      (c.db.runs.rows.filter fun row => row.tenantId = tenantId ∧
        (∀ a ∈ cursor, ¬ SQLite.createdBefore row a) ∧
        (∀ s ∈ (none : Option UUID), row.sessionId = s) ∧
        (([] : List RunStatus) = [] ∨ row.status ∈ [])) =
      c.db.runs.rows.filter fun row => row.tenantId = tenantId ∧
        ∀ a ∈ cursor, ¬ SQLite.createdBefore row a := by
    intro cursor c
    refine List.filter_congr fun row _ => ?_
    simp
  refine congrArg _ (funext fun _ => congrArg _ (funext fun cursor => ?_))
  exact congrArg (fun rows => query rows >>= fun rows =>
    ofExcept ((limited (some limit) (rows.insertionSort SQLite.createdBefore)).mapM runFromRow))
    (funext (hfilter cursor))

/-- What `list_runs` answers. -/
theorem exists_rows_of_listRuns (h : (perform sha ⟨.listRuns tenantId after (some limit) none [],
    clock⟩ db).1 = .ok values) : ∃ cursor, IsCursor db tenantId after cursor ∧
      ((rowsAfter tenantId cursor db).take limit.toNat).mapM runFromRow = .ok values := by
  obtain ⟨c', hbody, -⟩ := transaction_eq_ok_iff.mp (Prod.ext h rfl :
    transaction (SQLite.listRuns tenantId after (some limit) none []) clock db =
      (.ok values, (perform sha ⟨.listRuns tenantId after (some limit) none [], clock⟩ db).2))
  rw [listRuns_eq] at hbody
  simp only [yields_bind, yields_raiseUnless, yields_query, yields_ofExcept] at hbody
  obtain ⟨_, _, ⟨-, rfl⟩, cursor, _, hcursor, rows, _, ⟨rfl, rfl⟩, hvalues, -⟩ := hbody
  rcases after with _ | i
  · simp only [cursorRow, yields_pure] at hcursor
    obtain ⟨rfl, rfl⟩ := hcursor
    exact ⟨none, rfl, hvalues⟩
  · simp only [cursorRow, yields_bind, yields_query] at hcursor
    obtain ⟨found, _, ⟨hfound, rfl⟩, hcursor⟩ := hcursor
    rcases found with _ | row
    · exact absurd hcursor not_yields_raise
    · simp only [yields_bind, yields_raiseUnless, yields_pure] at hcursor
      obtain ⟨_, _, ⟨htenant, rfl⟩, rfl, rfl⟩ := hcursor
      exact ⟨some row, ⟨row, hfound, htenant, rfl⟩, hvalues⟩

/-- `list_runs` answers if the rows of the tenant can be read. -/
theorem exists_listRuns_eq_ok (sha : Sha256) (clock : ℕ → ClockReading) (hlimit : 1 ≤ limit)
    (hcursor : ∀ i ∈ after, ∃ row, db.runs.find? i = some row ∧ row.tenantId = tenantId)
    (haware : ∀ row ∈ db.runs.rows, row.tenantId = tenantId → row.updatedAt.Aware) :
    ∃ values, (perform sha ⟨.listRuns tenantId after (some limit) none [], clock⟩ db).1 =
      .ok values := by
  have hread : ∀ rows : List RunRow, (∀ row ∈ rows, row.updatedAt.Aware) →
      ∃ values, rows.mapM runFromRow = .ok values := by
    intro rows hrows
    induction rows with
    | nil => exact ⟨[], rfl⟩
    | cons row rows ih =>
      obtain ⟨values, hvalues⟩ := ih fun row hrow => hrows row (List.mem_cons_of_mem _ hrow)
      have hrow : row.updatedAt.Aware := hrows row List.mem_cons_self
      refine ⟨row.toRun hrow :: values, ?_⟩
      rw [List.mapM_cons, hvalues, runFromRow, dif_pos hrow]
      rfl
  have hyields : ∀ cursor, (cursorRow tenantId after).Yields ⟨db, clock⟩ cursor ⟨db, clock⟩ →
      ∃ values, (perform sha ⟨.listRuns tenantId after (some limit) none [], clock⟩ db).1 =
        .ok values := by
    intro cursor hyields
    obtain ⟨values, hvalues⟩ := hread ((rowsAfter tenantId cursor db).take limit.toNat)
      fun row hrow => by
        obtain ⟨hmem, htenant, -⟩ := mem_rowsAfter.mp (List.mem_of_mem_take hrow)
        exact haware row hmem htenant
    have hbody : (SQLite.listRuns tenantId after (some limit) none []).Yields ⟨db, clock⟩ values
        ⟨db, clock⟩ := by
      rw [listRuns_eq]
      simp only [yields_bind, yields_raiseUnless, yields_query, yields_ofExcept]
      refine ⟨(), _, ⟨?_, rfl⟩, cursor, _, hyields, _, _, ⟨rfl, rfl⟩, hvalues, rfl⟩
      rintro n ⟨⟩
      exact hlimit
    exact ⟨values, congrArg Prod.fst (transaction_eq_ok_iff.mpr ⟨_, hbody, rfl⟩)⟩
  rcases after with _ | i
  · exact hyields none (yields_pure.mpr ⟨rfl, rfl⟩)
  · obtain ⟨row, hrow, htenant⟩ := hcursor i rfl
    refine hyields (some row) ?_
    simp only [cursorRow, yields_bind, yields_query]
    refine ⟨some row, _, ⟨hrow, rfl⟩, ?_⟩
    simp only [yields_bind, yields_raiseUnless, yields_pure]
    exact ⟨(), _, ⟨htenant, rfl⟩, trivial, rfl⟩

end Store

/-! ### Following the cursors -/

/-- A caller of a tenant asks for the first page of its runs, and then for the next one as long as
there is one, with any limits; in between the store is called in any way. These are the tables at
the start and at a later time, the parameter `after` of the next page, and the runs listed
so far. -/
inductive RunsListed (sha : Sha256) (t : Decimals) (tenantId : String) (start : Database) :
    Database → Option String → List Run → Prop
  | first {r : RunListRequest} {clock : ℕ → ClockReading} {page : RunPage}
      (hafter : r.after = none) (htenant : ∀ context ∈ r.context, context.tenantId.val = tenantId)
      (hpage : r.answer sha t clock start = .ok page) :
      RunsListed sha t tenantId start start page.next page.items
  | other {db : Database} {next : Option String} {items : List Run} (call : Call) :
      RunsListed sha t tenantId start db next items →
      RunsListed sha t tenantId start (perform sha call db).2 next items
  | next {db : Database} {after : String} {items : List Run} {r : RunListRequest}
      {clock : ℕ → ClockReading} {page : RunPage} (hafter : r.after = some after)
      (htenant : ∀ context ∈ r.context, context.tenantId.val = tenantId)
      (hpage : r.answer sha t clock db = .ok page) :
      RunsListed sha t tenantId start db (some after) items →
      RunsListed sha t tenantId start db page.next (items ++ page.items)

section Course

variable {sha : Sha256} {t : Decimals} {tenantId : String} {start db : Database}
  {next : Option String} {items : List Run} {r : RunListRequest} {clock : ℕ → ClockReading}
  {page : RunPage}

/-- The run is that of a row of the tenant. -/
def IsListed (tenantId : String) (db : Database) (run : Run) : Prop :=
  run.tenantId = tenantId ∧ ∃ row, db.runs.find? run.id = some row ∧ row.key = run.key ∧
    row.tenantId = tenantId

/-- What the answer to a request holds. -/
theorem exists_isPage_of_answer (h : r.answer sha t clock db = .ok page)
    (htenant : ∀ context ∈ r.context, context.tenantId.val = tenantId) {after : Option UUID}
    (hafter : cursorId t r.after = some after) : ∃ cursor next, IsCursor db tenantId after cursor ∧
      IsPage (runKeys tenantId db) (cursor.map RunRow.key) (page.items.map Run.key) next ∧
      page.next = next.map (fun k => (ofLex k).2.str) ∧
      ∀ run ∈ page.items, IsListed tenantId db run := by
  obtain ⟨context, limit, after', values, hcontext, hlimit, hafter', hvalues, rfl⟩ :=
    RunListRequest.exists_of_listRuns h
  obtain rfl := htenant context hcontext
  obtain rfl := Option.some.inj (hafter.symm.trans hafter')
  have hone : 1 ≤ limit := one_le_of_pageLimit (by omega) hlimit
  obtain ⟨cursor, hcursor, hrows⟩ := exists_rows_of_listRuns hvalues
  have hsucc : (limit + 1).toNat = limit.toNat + 1 := by omega
  rw [hsucc] at hrows
  obtain ⟨keys, hkeysEq⟩ : ∃ keys, keys =
    (rowsAfter context.tenantId.val cursor db).map RunRow.key := ⟨_, rfl⟩
  have hvaluesKeys : values.map Run.key = keys.take (limit.toNat + 1) := by
    rw [map_of_mapM_runFromRow (f := RunRow.key) (fun _ _ => rfl) hrows, List.map_take, hkeysEq]
  have hitems : (values.take limit.toNat).map Run.key = keys.take limit.toNat := by
    rw [List.map_take, hvaluesKeys, List.take_take, Nat.min_eq_left (Nat.le_succ _)]
  have hlength : values.length = min (limit.toNat + 1) keys.length := by
    rw [← List.length_map Run.key, hvaluesKeys, List.length_take]
  have hmore : limit < values.length ↔ limit.toNat < keys.length := by omega
  refine ⟨cursor, if limit.toNat < keys.length then (keys.take limit.toNat).getLast? else none,
    hcursor, ?_, ?_, fun run hrun => ?_⟩
  · change IsPage _ _ ((values.take limit.toNat).map Run.key) _
    rw [hitems]
    refine isPage_take ?_ (fun k => ?_) (by omega)
    · rw [hkeysEq]
      exact pairwise_key_rowsAfter _ _ _
    · rw [hkeysEq, List.mem_map]
      constructor
      · rintro ⟨row, hrow, rfl⟩
        obtain ⟨hmem, htenantEq, hcursorLt⟩ := mem_rowsAfter.mp hrow
        refine ⟨⟨row, hmem, htenantEq, rfl⟩, fun c hc => ?_⟩
        obtain ⟨a, ha, rfl⟩ := Option.map_eq_some_iff.mp hc
        exact hcursorLt a ha
      · rintro ⟨⟨row, hmem, htenantEq, rfl⟩, hcursorLt⟩
        exact ⟨row, mem_rowsAfter.mpr ⟨hmem, htenantEq, fun a ha =>
          hcursorLt a.key (Option.map_eq_some_iff.mpr ⟨a, ha, rfl⟩)⟩, rfl⟩
  · change (if limit < values.length then _ else none) = _
    by_cases hlt : limit.toNat < keys.length
    · rw [if_pos (hmore.mpr hlt), if_pos hlt, ← hitems, List.getLast?_map, Option.map_map]
      rfl
    · rw [if_neg fun h => hlt (hmore.mp h), if_neg hlt]
      rfl
  · have hboth : values.map (fun run => (run.key, run.tenantId)) =
        ((rowsAfter context.tenantId.val cursor db).take (limit.toNat + 1)).map
          fun row => (row.key, row.tenantId) := map_of_mapM_runFromRow (fun _ _ => rfl) hrows
    have hmem := List.mem_map_of_mem (f := fun run : Run => (run.key, run.tenantId))
      (List.mem_of_mem_take hrun)
    rw [hboth] at hmem
    obtain ⟨row, hrow, heq⟩ := List.mem_map.mp hmem
    obtain ⟨hkey, htenantEq⟩ := Prod.mk.inj heq
    obtain ⟨hrowMem, hrowTenant, -⟩ := mem_rowsAfter.mp (List.mem_of_mem_take hrow)
    have hid : row.id = run.id := congrArg (fun k => (ofLex k).2) hkey
    exact ⟨htenantEq.symm.trans hrowTenant, row, hid ▸ Table.find?_of_mem hrowMem, hkey,
      hrowTenant⟩

/-- A row that is there stays, with its key and its tenant. -/
theorem exists_row_perform (sha : Sha256) (call : Call) {i : UUID} {row : RunRow}
    (hrow : db.runs.find? i = some row) : ∃ row', (perform sha call db).2.runs.find? i = some row' ∧
      row'.key = row.key ∧ row'.tenantId = row.tenantId := by
  obtain ⟨a, -, hstep⟩ := exists_step_perform sha call db i
  obtain ⟨row', hrow', hrequest⟩ := hstep.exists_request hrow
  refine ⟨row', hrow', ?_, congrArg RunRequest.tenantId hrequest⟩
  exact congrArg (fun q => toLex (q.createdAt.isoformat, q.id)) hrequest

theorem runKeys_subset_perform (sha : Sha256) (call : Call) (tenantId : String) (db : Database) :
    runKeys tenantId db ⊆ runKeys tenantId (perform sha call db).2 := by
  rintro k ⟨row, hrow, htenant, rfl⟩
  obtain ⟨row', hrow', hkey, htenant'⟩ := exists_row_perform sha call (Table.find?_of_mem hrow)
  exact ⟨row', Table.mem_of_find? hrow', htenant'.trans htenant, hkey⟩

theorem IsListed.perform {run : Run} (h : IsListed tenantId db run) (sha : Sha256) (call : Call) :
    IsListed tenantId (perform sha call db).2 run := by
  obtain ⟨hrun, row, hrow, hkey, htenant⟩ := h
  obtain ⟨row', hrow', hkey', htenant'⟩ := exists_row_perform sha call hrow
  exact ⟨hrun, row', hrow', hkey'.trans hkey, htenant'.trans htenant⟩

/-- What has been listed at any time. -/
structure ListedSoFar (tenantId : String) (start db : Database) (next : Option String)
    (items : List Run) : Prop where
  grows : runKeys tenantId start ⊆ runKeys tenantId db
  isListed : ∀ run ∈ items, IsListed tenantId db run
  enumerates : ∃ cursor, Enumerates (runKeys tenantId start) (items.map Run.key) cursor ∧
    next = cursor.map fun k => (ofLex k).2.str

theorem RunsListed.soFar (h : RunsListed sha t tenantId start db next items) :
    ListedSoFar tenantId start db next items := by
  induction h with
  | @first r clock page hafter htenant hpage =>
    have hid : cursorId t r.after = some none := by
      rw [hafter]
      rfl
    obtain ⟨cursor, next, hcursor, hkeys, hnext, hitems⟩ :=
      exists_isPage_of_answer hpage htenant hid
    obtain rfl : cursor = none := hcursor
    exact ⟨Set.Subset.rfl, hitems, next, hkeys.enumerates, hnext⟩
  | other call _ ih =>
    exact ⟨ih.grows.trans (runKeys_subset_perform sha call tenantId _),
      fun run hrun => (ih.isListed run hrun).perform sha call, ih.enumerates⟩
  | @next db after items r clock page hafter htenant hpage _ ih =>
    obtain ⟨cursor, hsoFar, hcursorText⟩ := ih.enumerates
    rcases cursor with _ | k
    · cases hcursorText
    · obtain rfl := Option.some.inj hcursorText
      have hid : cursorId t r.after = some (some (ofLex k).2) := by
        rw [hafter, cursorId, if_neg (UUID.str_ne_empty _), UUID.ofText_str]
        rfl
      obtain ⟨cursor, next, ⟨row, hrow, -, hcursor⟩, hkeys, hnext, hitems⟩ :=
        exists_isPage_of_answer hpage htenant hid
      -- The cursor is the row of the last run that was listed.
      obtain ⟨run, hrun, rfl⟩ := List.mem_map.mp (List.mem_of_getLast? (hsoFar.last k rfl))
      obtain ⟨-, row', hrow', hkey, -⟩ := ih.isListed run hrun
      obtain rfl := Option.some.inj (hrow.symm.trans hrow')
      rw [hcursor, Option.map_some, hkey] at hkeys
      refine ⟨ih.grows, fun run hrun => ?_, next, ?_, hnext⟩
      · exact (List.mem_append.mp hrun).elim (ih.isListed run) (hitems run)
      · rw [List.map_append]
        exact hsoFar.append hkeys ih.grows

/-- The next page is answered if the rows of the tenant can be read. -/
theorem RunsListed.exists_answer (h : RunsListed sha t tenantId start db next items)
    (hafter : r.after = next) {context : SecurityContext} (hcontext : r.context = some context)
    (hallows : allows context "run.read" = true) (htenant : context.tenantId.val = tenantId)
    (hlimit : (t.int (r.limit.getD "50")).isSome = true)
    (haware : ∀ row ∈ db.runs.rows, row.tenantId = tenantId → row.updatedAt.Aware) :
    ∃ page, r.answer sha t clock db = .ok page := by
  obtain ⟨hgrows, hlisted, cursor, hkeys, hnext⟩ := h.soFar
  obtain ⟨n, hn⟩ := Option.isSome_iff_exists.mp hlimit
  have hpage : pageLimit t (r.limit.getD "50") 200 = some (min (max n 1) 200) := by
    rw [pageLimit, hn]
    rfl
  -- The cursor is the id of a run that was listed.
  obtain ⟨after, hcursor, hrow⟩ : ∃ after, cursorId t r.after = some after ∧
      ∀ i ∈ after, ∃ row, db.runs.find? i = some row ∧ row.tenantId = tenantId := by
    rcases cursor with _ | k
    · refine ⟨none, ?_, fun i hi => by cases hi⟩
      rw [hafter, hnext]
      rfl
    · refine ⟨some (ofLex k).2, ?_, fun i hi => ?_⟩
      · rw [hafter, hnext, Option.map_some, cursorId, if_neg (UUID.str_ne_empty _),
          UUID.ofText_str]
        rfl
      · obtain rfl := Option.some.inj hi
        obtain ⟨run, hrun, rfl⟩ := List.mem_map.mp (List.mem_of_getLast? (hkeys.last k rfl))
        obtain ⟨-, row, hrow, -, htenant⟩ := hlisted run hrun
        exact ⟨row, hrow, htenant⟩
  have hone : 1 ≤ min (max n 1) 200 + 1 := by omega
  obtain ⟨values, hvalues⟩ := exists_listRuns_eq_ok sha clock hone hrow haware
  exact ⟨_, r.listRuns_eq_ok (authenticate_eq_ok_iff.mpr ⟨hcontext, hallows⟩) hpage hcursor
    (htenant.symm ▸ hvalues)⟩

/-- **Listing runs.** Whatever is called in between and whatever the limits are, a caller who
follows the cursors of a tenant until there is no next page has listed every run of the tenant that
was there at the first request exactly once, in the order of their creation, and no run of another
tenant. The next page is built as long as the rows of the tenant can be read. Its text is made by
the framework, which refuses runs with infinities or NaN in them and is not part of the model. -/
theorem RunsListed.complete (sha : Sha256) (t : Decimals) (tenantId : String) (calls : List Call)
    (db : Database) (next : Option String) (items : List Run)
    (h : RunsListed sha t tenantId (after sha calls) db next items) :
    (next = none → (∀ row, row ∈ (after sha calls).runs.rows → row.tenantId = tenantId →
      (items.map Run.id).count row.id = 1)) ∧
    items.Pairwise (fun a b => a.key < b.key ∧ (a.createdAt.IsUtc → b.createdAt.IsUtc →
      a.createdAt.instant < b.createdAt.instant ∨
        a.createdAt.instant = b.createdAt.instant ∧ a.id < b.id)) ∧
    (∀ run ∈ items, run.tenantId = tenantId) ∧
    ∀ (r : RunListRequest) (context : SecurityContext) (clock : ℕ → ClockReading),
      r.after = next → r.context = some context → allows context "run.read" = true →
      context.tenantId.val = tenantId → (t.int (r.limit.getD "50")).isSome = true →
      (∀ row ∈ db.runs.rows, row.tenantId = tenantId → row.updatedAt.Aware) →
      ∃ page, r.answer sha t clock db = .ok page := by
  have hsoFar := h.soFar
  obtain ⟨cursor, hkeys, hnext⟩ := hsoFar.enumerates
  have hsorted : items.Pairwise fun a b => a.key < b.key := List.pairwise_map.mp hkeys.sorted
  have hnodup : (items.map Run.id).Nodup := by
    refine List.pairwise_map.mpr (hsorted.imp_of_mem fun {a b} ha hb hlt hid => ?_)
    obtain ⟨-, row, hrow, hkey, -⟩ := hsoFar.isListed a ha
    obtain ⟨-, row', hrow', hkey', -⟩ := hsoFar.isListed b hb
    rw [hid] at hrow
    obtain rfl := Option.some.inj (hrow.symm.trans hrow')
    exact absurd hlt (by rw [← hkey, ← hkey']; exact lt_irrefl _)
  refine ⟨fun hnone row hrow htenant => ?_, hsorted.imp fun {a b} hlt => ⟨hlt, fun ha hb =>
    (Run.key_lt_iff_of_isUtc ha hb).mp hlt⟩, fun run hrun => (hsoFar.isListed run hrun).1,
    fun r context clock hafter hcontext hallows htenant hlimit haware =>
      h.exists_answer hafter hcontext hallows htenant hlimit haware⟩
  obtain rfl : cursor = none := Option.map_eq_none_iff.mp (hnext.symm.trans hnone)
  rcases hkeys.complete row.key ⟨row, hrow, htenant, rfl⟩ with hmem | ⟨n, hn, -⟩
  · obtain ⟨run, hrun, hkey⟩ := List.mem_map.mp hmem
    have hid : run.id = row.id := congrArg (fun k => (ofLex k).2) hkey
    exact List.count_eq_one_of_mem hnodup (hid ▸ List.mem_map_of_mem hrun)
  · cases hn

end Course

/-! ### A sample -/

namespace Sample

/-- A request for the first page of the runs of the sample tenant. -/
def firstPage : RunListRequest := ⟨some reader, some "1", none⟩

/-- The runs of the sample tenant are listed on one page. -/
theorem complete_sample : ∃ items, RunsListed Sample.sha decimals "tenant"
    (after Sample.sha [⟨.createRun run, clock 0⟩]) (after Sample.sha [⟨.createRun run, clock 0⟩])
      none items ∧ (items.map Run.id).count run.id = 1 := by
  have hpage : firstPage.answer Sample.sha decimals (clock 1)
      (after Sample.sha [⟨.createRun run, clock 0⟩]) = .ok ⟨[run], none⟩ := by decide +kernel
  have hlisted : RunsListed Sample.sha decimals "tenant"
      (after Sample.sha [⟨.createRun run, clock 0⟩])
      (after Sample.sha [⟨.createRun run, clock 0⟩]) none [run] :=
    RunsListed.first rfl (by decide) hpage
  have hmem : RunRow.ofRun run (fingerprint Sample.sha run) ∈
      (after Sample.sha [⟨.createRun run, clock 0⟩]).runs.rows := by decide +kernel
  exact ⟨_, hlisted, (RunsListed.complete Sample.sha decimals "tenant" _ _ _ _ hlisted).1 rfl _
    hmem rfl⟩

end Sample

end OpenRath
