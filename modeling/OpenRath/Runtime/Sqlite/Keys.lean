import OpenRath.Runtime.Sqlite.Later

/-!
# Idempotency keys

A request that is repeated under its idempotency key is answered by the run that it has made. No two
runs of a tenant have the same key, and the request of a run is never written again, so the answer
is the same run at any later time, whatever is called in between.

## Main definitions

* `Database.UniqueKeys`, `Database.KeyFree`.
* `SQLite.keyAnswer`: the answer to a request whose key has a run.

## Main results

* `SQLite.uniqueKeys_after`: the keys are unique after every history.
* `SQLite.exists_repeats`: a request that was answered is known to the tables.
* `SQLite.repeated_after`: what is answered to a request under a key that was used before.
-/

namespace OpenRath

/-- No run of the tenant of the request has its key. -/
def Database.KeyFree (db : Database) (run : Run) : Prop :=
  ∀ row ∈ db.runs.rows, row.tenantId = run.tenantId → run.idempotencyKey ≠ none →
    row.idempotencyKey ≠ run.idempotencyKey

/-- No two runs of a tenant have the same key. -/
def Database.UniqueKeys (db : Database) : Prop :=
  ∀ row ∈ db.runs.rows, ∀ row' ∈ db.runs.rows, row.tenantId = row'.tenantId →
    row.idempotencyKey = row'.idempotencyKey → row.idempotencyKey ≠ none → row = row'

namespace SQLite

open Tx Connection

variable {sha : Sha256} {c c' : Connection} {run r : Run}

/-! ### Answers -/

/-- A request is answered by a run that was made for it, or its key is free and it makes the
run. -/
theorem createRun_cases (h : (createRun sha run).Yields c r c') :
    (∃ row ∈ c.db.runs.rows, Repeats sha run row ∧ (∃ haware, row.toRun haware = r) ∧ c = c') ∨
      c.db.KeyFree run ∧ r = run ∧
        c'.db.runs.rows = c.db.runs.rows ++ [.ofRun run (fingerprint sha run)] := by
  rcases answer_createRun h with hrepeats | ⟨rfl, -⟩
  · exact Or.inl hrepeats
  simp only [createRun, yields_bind, yields_query] at h
  obtain ⟨found, _, ⟨hfound, rfl⟩, h⟩ := h
  rcases found with _ | row
  · simp only [yields_bind, yields_mapError, yields_pure] at h
    obtain ⟨_, c₁, hput, e, _, he, -, rfl⟩ := h
    obtain ⟨t, hone, hins, rfl⟩ := yields_insertRun hput
    obtain ⟨-, -, t', -, rfl⟩ := yields_appendEvent.mp he
    refine Or.inr ⟨fun row hrow htenant hkey heq => ?_, rfl, Table.insert?_rows hins⟩
    obtain ⟨key, hk⟩ := Option.ne_none_iff_exists'.mp hkey
    rw [hk, Option.bind_some, List.find?_eq_none] at hfound
    exact hfound row hrow (by simp [htenant, heq, hk])
  · simp only [yields_bind, yields_raiseUnless, yields_ofExcept] at h
    obtain ⟨_, _, ⟨hfingerprint, rfl⟩, hrun, rfl⟩ := h
    obtain ⟨key, hkey, hfind⟩ := Option.bind_eq_some_iff.mp hfound
    have hrow : row.tenantId = r.tenantId ∧ row.idempotencyKey = some key := by
      simpa using List.find?_some hfind
    exact Or.inl ⟨row, List.mem_of_find?_eq_some hfind, ⟨hrow.1, ⟨key, hkey, hrow.2⟩,
      hfingerprint⟩, runFromRow_eq_ok.mp hrun, rfl⟩

/-- The run of a request that was answered is in the tables, with the request. -/
theorem exists_repeats {db : Database} {clock : ℕ → ClockReading} (hkey : run.idempotencyKey ≠ none)
    (h : (perform sha ⟨.createRun run, clock⟩ db).1 = .ok r) :
    ∃ row, (perform sha ⟨.createRun run, clock⟩ db).2.runs.find? r.id = some row ∧
      Repeats sha run row := by
  rcases perform_cases sha ⟨.createRun run, clock⟩ db with ⟨e, he, -⟩ | ⟨r', c', hr, hdb, hy⟩
  · cases h.symm.trans he
  cases h.symm.trans hr
  rw [hdb]
  rcases createRun_cases hy with ⟨row, hrow, hrepeats, ⟨haware, rfl⟩, rfl⟩ | ⟨-, rfl, hrows⟩
  · exact ⟨row, Table.find?_of_mem hrow, hrepeats⟩
  · obtain ⟨key, hk⟩ := Option.ne_none_iff_exists'.mp hkey
    have hmem : RunRow.ofRun r (fingerprint sha r) ∈ c'.db.runs.rows := by
      rw [hrows]
      exact List.mem_append_right _ (List.mem_singleton_self _)
    exact ⟨_, Table.find?_of_mem hmem, rfl, ⟨key, hk, hk⟩, rfl⟩

/-! ### The rows of later tables -/

/-- A row was there before a call, with its request, or the call has made it, and its key was
free. -/
theorem origin_of_perform (sha : Sha256) (call : Call) {db : Database} {row : RunRow}
    (hrow : row ∈ (perform sha call db).2.runs.rows) :
    (∃ row₀ ∈ db.runs.rows, row.request = row₀.request) ∨
      ∃ run, call.op = .createRun run ∧ db.KeyFree run ∧
        row = .ofRun run (fingerprint sha run) := by
  rcases hfind : db.runs.find? row.id with _ | row₀
  · rcases perform_cases sha call db with ⟨e, -, hsame⟩ | ⟨r, c', hr, hdb, hy⟩
    · rw [hsame] at hrow
      cases hfind.symm.trans (Table.find?_of_mem hrow)
    obtain ⟨a, ha, hstep⟩ := step_perform hr row.id
    rcases hstep.row_none hfind with hnone | ⟨run, fp, rfl, hnew⟩
    · cases hnone.symm.trans (Table.find?_of_mem hrow)
    obtain ⟨op, clock⟩ := call
    cases ha.causes
    rw [hdb] at hrow
    rcases createRun_cases hy with ⟨_, -, -, -, rfl⟩ | ⟨hfree, -, hrows⟩
    · cases hfind.symm.trans (Table.find?_of_mem hrow)
    · rw [hrows] at hrow
      rcases List.mem_append.mp hrow with hold | hmade
      · cases hfind.symm.trans (Table.find?_of_mem hold)
      · exact Or.inr ⟨run, rfl, hfree, List.mem_singleton.mp hmade⟩
  · obtain ⟨a, -, hstep⟩ := exists_step_perform sha call db row.id
    obtain ⟨row', hrow', hrequest⟩ := hstep.exists_request hfind
    cases hrow'.symm.trans (Table.find?_of_mem hrow)
    exact Or.inl ⟨row₀, Table.mem_of_find? hfind, hrequest⟩

/-- A row that was there does not have a free key. -/
theorem not_keyFree_of_request {db : Database} {row row₀ : RunRow} (hrow₀ : row₀ ∈ db.runs.rows)
    (hsame : row.request = row₀.request) (htenant : row.tenantId = run.tenantId)
    (hkey : row.idempotencyKey = run.idempotencyKey) (hne : row.idempotencyKey ≠ none) :
    ¬ db.KeyFree run := by
  intro hfree
  have htenant₀ : row.tenantId = row₀.tenantId := congrArg RunRequest.tenantId hsame
  have hkey₀ : row.idempotencyKey = row₀.idempotencyKey := congrArg RunRequest.idempotencyKey hsame
  exact hfree row₀ hrow₀ (htenant₀.symm.trans htenant) (hkey ▸ hne) (hkey₀.symm.trans hkey)

/-- A call keeps the keys unique. -/
theorem uniqueKeys_perform (sha : Sha256) (call : Call) {db : Database} (h : db.UniqueKeys) :
    (perform sha call db).2.UniqueKeys := by
  intro row hrow row' hrow' htenant hkey hne
  rcases origin_of_perform sha call hrow with ⟨row₀, hrow₀, hsame⟩ | ⟨run, hop, hfree, hmade⟩
  · rcases origin_of_perform sha call hrow' with ⟨row₀', hrow₀', hsame'⟩ | ⟨run, -, hfree, rfl⟩
    · have htenants : row₀.tenantId = row₀'.tenantId :=
        (congrArg RunRequest.tenantId hsame).symm.trans
          (htenant.trans (congrArg RunRequest.tenantId hsame'))
      have hkey₀ : row.idempotencyKey = row₀.idempotencyKey :=
        congrArg RunRequest.idempotencyKey hsame
      have hkeys : row₀.idempotencyKey = row₀'.idempotencyKey :=
        hkey₀.symm.trans (hkey.trans (congrArg RunRequest.idempotencyKey hsame'))
      have heq := h row₀ hrow₀ row₀' hrow₀' htenants hkeys (hkey₀ ▸ hne)
      refine Table.eq_of_key_eq _ hrow hrow' ?_
      exact congrArg RunRequest.id (hsame.trans ((congrArg RunRow.request heq).trans hsame'.symm))
    · exact absurd hfree (not_keyFree_of_request hrow₀ hsame htenant hkey hne)
  · rcases origin_of_perform sha call hrow' with ⟨row₀', hrow₀', hsame'⟩ | ⟨run', hop', -, hmade'⟩
    · rw [hmade] at htenant hkey hne
      exact absurd hfree
        (not_keyFree_of_request hrow₀' hsame' htenant.symm hkey.symm fun hnone =>
          hne (hkey.trans hnone))
    · obtain rfl : run = run' := Op.createRun.inj (hop.symm.trans hop')
      rw [hmade, hmade']

/-- **Keys.** After every history, no two runs of a tenant have the same key. -/
theorem uniqueKeys_after (sha : Sha256) (calls : List Call) : (after sha calls).UniqueKeys := by
  induction calls using List.reverseRecOn with
  | nil =>
    intro row hrow
    cases hrow
  | append_singleton calls call ih =>
    rw [after_concat]
    exact uniqueKeys_perform sha call ih

/-! ### Repeated requests -/

theorem Repeats.of_request {row row' : RunRow} (h : Repeats sha run row)
    (hsame : row'.request = row.request) : Repeats sha run row' := by
  obtain ⟨htenant, ⟨key, hkey, hrow⟩, hfingerprint⟩ := h
  exact ⟨(congrArg RunRequest.tenantId hsame).trans htenant,
    ⟨key, hkey, (congrArg RunRequest.idempotencyKey hsame).trans hrow⟩,
    (congrArg RunRequest.requestFingerprint hsame).trans hfingerprint⟩

/-- The row that a key finds. -/
theorem find?_of_key {db : Database} (hkeys : db.UniqueKeys) {row : RunRow} {key : String}
    (hrow : row ∈ db.runs.rows) (htenant : row.tenantId = run.tenantId)
    (hkey : run.idempotencyKey = some key) (hrowKey : row.idempotencyKey = some key) :
    (run.idempotencyKey.bind fun key => db.runs.rows.find? fun r =>
      r.tenantId = run.tenantId ∧ r.idempotencyKey = some key) = some row := by
  rw [hkey, Option.bind_some]
  rcases hfind : db.runs.rows.find? fun r => r.tenantId = run.tenantId ∧
    r.idempotencyKey = some key with _ | row'
  · exact absurd (List.find?_eq_none.mp hfind row hrow) (by simp [htenant, hrowKey])
  · have hfound : row'.tenantId = run.tenantId ∧ row'.idempotencyKey = some key := by
      simpa using List.find?_some hfind
    have heq := hkeys row' (List.mem_of_find?_eq_some hfind) row hrow
      (hfound.1.trans htenant.symm) (hfound.2.trans hrowKey.symm) (by simp [hfound.2])
    rw [← heq]
    exact hfind

/-- What `create_run` answers to a request whose key has a run. -/
def keyAnswer (sha : Sha256) (run : Run) (row : RunRow) : Except StoreError Run :=
  if row.requestFingerprint = fingerprint sha run then runFromRow row
  else .error (.conflict "idempotency key was already used for a different request" [])

/-- A request whose key has a run is answered with that run, or refused if it is another request,
and nothing is written. -/
theorem perform_createRun_of_key {db : Database} (clock : ℕ → ClockReading)
    (hkeys : db.UniqueKeys) {row : RunRow} {key : String} (hrow : row ∈ db.runs.rows)
    (htenant : row.tenantId = run.tenantId) (hkey : run.idempotencyKey = some key)
    (hrowKey : row.idempotencyKey = some key) :
    perform sha ⟨.createRun run, clock⟩ db = (keyAnswer sha run row, db) := by
  have hfind := find?_of_key hkeys hrow htenant hkey hrowKey
  have hraises : ∀ e, keyAnswer sha run row = .error e →
      (createRun sha run).Raises ⟨db, clock⟩ e := by
    intro e he
    rw [createRun, raises_bind]
    refine Or.inr ⟨_, _, yields_query.mpr ⟨hfind, rfl⟩, ?_⟩
    dsimp only
    rw [raises_bind]
    rw [keyAnswer] at he
    split_ifs at he with hsame
    · exact Or.inr ⟨(), _, yields_raiseUnless.mpr ⟨hsame, rfl⟩, raises_ofExcept.mpr he⟩
    · exact Or.inl (raises_raiseUnless.mpr ⟨hsame, Except.error.inj he⟩)
  have hyields : ∀ r, keyAnswer sha run row = .ok r →
      (createRun sha run).Yields ⟨db, clock⟩ r ⟨db, clock⟩ := by
    intro r hr
    rw [keyAnswer] at hr
    split_ifs at hr with hsame
    rw [createRun, yields_bind]
    refine ⟨_, _, yields_query.mpr ⟨hfind, rfl⟩, ?_⟩
    dsimp only
    rw [yields_bind]
    exact ⟨(), _, yields_raiseUnless.mpr ⟨hsame, rfl⟩, yields_ofExcept.mpr ⟨hr, rfl⟩⟩
  rcases hanswer : keyAnswer sha run row with e | r
  · have herror := transaction_fst_eq_error_iff.mpr (hraises e hanswer)
    exact Prod.ext herror (transaction_snd_of_error herror)
  · exact transaction_eq_ok_iff.mpr ⟨⟨db, clock⟩, hyields r hanswer, rfl⟩

/-- **Repeated requests.** After a request under a key has been answered with a run, and after any
further calls, every request of the tenant under the key is answered with that run if it has the
fingerprint of the first one, and refused otherwise; it writes nothing. -/
theorem repeated_after (sha : Sha256) (past between : List Call) {first again r : Run}
    {clock : ℕ → ClockReading} (clock' : ℕ → ClockReading) (hkey : first.idempotencyKey ≠ none)
    (h : (perform sha ⟨.createRun first, clock⟩ (after sha past)).1 = .ok r)
    (htenant : again.tenantId = first.tenantId)
    (hsame : again.idempotencyKey = first.idempotencyKey) :
    ∃ row, (after sha (past ++ ⟨.createRun first, clock⟩ :: between)).runs.find? r.id = some row ∧
      (row.requestFingerprint = fingerprint sha first) ∧
      perform sha ⟨.createRun again, clock'⟩
          (after sha (past ++ ⟨.createRun first, clock⟩ :: between)) =
        (keyAnswer sha again row, after sha (past ++ ⟨.createRun first, clock⟩ :: between)) := by
  obtain ⟨row₀, hrow₀, hrepeats₀⟩ := exists_repeats hkey h
  obtain ⟨row, hrow, hrequest⟩ := exists_request_later sha between hrow₀
  have hlater : later sha between (perform sha ⟨.createRun first, clock⟩ (after sha past)).2 =
      after sha (past ++ ⟨.createRun first, clock⟩ :: between) := by
    rw [← after_concat, later_after, List.append_assoc, List.singleton_append]
  rw [hlater] at hrow
  have hrepeats := hrepeats₀.of_request hrequest
  obtain ⟨key, hfirst, hrowKey⟩ := hrepeats.key_eq
  exact ⟨row, hrow, hrepeats.fingerprint_eq, perform_createRun_of_key clock'
    (uniqueKeys_after sha _) (Table.mem_of_find? hrow) (hrepeats.tenant_eq.trans htenant.symm)
    (hsame.trans hfirst) hrowKey⟩

end SQLite

/-! ### A sample -/

namespace Sample

/-- The request of the sample run under a key. -/
def keyed : Run := { run with idempotencyKey := some "key" }

/-- The request is repeated after the run was claimed. -/
theorem keyed_repeated : ∃ row, (SQLite.after Sample.sha ([] ++ ⟨.createRun keyed, clock 0⟩ ::
      [⟨.claimNext "first" (.finite 30) none, clock 1⟩])).runs.find? run.id = some row ∧
    row.requestFingerprint = fingerprint Sample.sha keyed ∧
    SQLite.perform Sample.sha ⟨.createRun keyed, clock 2⟩
        (SQLite.after Sample.sha ([] ++ ⟨.createRun keyed, clock 0⟩ ::
          [⟨.claimNext "first" (.finite 30) none, clock 1⟩])) =
      (SQLite.keyAnswer Sample.sha keyed row, SQLite.after Sample.sha
        ([] ++ ⟨.createRun keyed, clock 0⟩ ::
          [⟨.claimNext "first" (.finite 30) none, clock 1⟩])) :=
  @SQLite.repeated_after Sample.sha [] [⟨.claimNext "first" (.finite 30) none, clock 1⟩] keyed keyed
    keyed (clock 0) (clock 2) (by decide) (by decide +kernel) rfl rfl

end Sample

end OpenRath
