import OpenRath.Library.DatetimeText
import OpenRath.Library.JsonSorted
import OpenRath.Library.NumberText
import OpenRath.Runtime.Submission

/-!
# The context that comes back from the store

`submit` writes the context of a run into a column, which the store keeps as a JSON text, and
`_restore_context` (`src/rath/runtime/local.py`) makes a context of what the store reads in the
column. The context that is restored is the one that was submitted, with the keys of its mappings in
order, whatever has happened to the run in between.

What Python reads in the texts of identifiers and datetimes is as documented
(`Readings.Documented`), and it reads the text of a finite floating-point number as that number.

## Main definitions

* `TraceContext.make`: the constructor of the identifiers of a trace.
* `dumpColumn`, `loadColumn`, `RunRow.fetch`: the texts of the columns of a run.
* `RunContext.sorted`: a context with the keys of its mappings in order.

## Main results

* `restoreContext_column`: what is restored of the column of a context.
* `context_survives`: what is restored of a run that was submitted.
-/

namespace OpenRath

open Process

/-! ### Columns -/

/-- `_dump`. -/
def dumpColumn (fl : FloatText) (v : Json) : Except Exn (List Char) :=
  match dumpsSorted fl [] v with
  | some t => .ok t
  | none => .error (.store (.valueError
      "Exceeds the limit (4300 digits) for integer string conversion"))

/-- `_load` of an object. -/
def loadColumn (fl : FloatText) (t : List Char) : Except Exn JsonObject :=
  match loads fl t with
  | .ok (.obj fields) => .ok fields
  | .ok _ => .error (.other "AssertionError" "")
  | .error _ => .error (.other "JSONDecodeError" "")

/-- `_run_from_row`, with the context from the text that was written into its column. -/
def RunRow.fetch (fl : FloatText) (row : RunRow) : Except Exn Run := do
  let text ← dumpColumn fl (.obj row.context)
  let context ← loadColumn fl text
  let run ← (SQLite.runFromRow row).mapError .store
  .ok { run with context := context }

/-! ### Contexts -/

/-- The constructor of `TraceContext`. -/
def TraceContext.make (readings : Readings) (traceId spanId : String) (sampled : Bool) :
    Except Exn TraceContext := do
  let traceId ← readings.validateHex traceId 32 "trace_id"
  let spanId ← readings.validateHex spanId 16 "span_id"
  .ok ⟨traceId, spanId, sampled⟩

/-- What Python reads is as documented. -/
structure Readings.Documented (readings : Readings) (decimals : Decimals) : Prop where
  uuid : ∀ text u, UUID.ofText decimals text = some u → readings.uuid text = .ok u
  datetime : ∀ text d, Datetime.ofIsoformat text.toList = some d → readings.datetime text = .ok d
  lower_lower : ∀ text, readings.lower (readings.lower text) = readings.lower text

/-- The context with the keys of its mappings in order. -/
def RunContext.sorted (context : RunContext) : RunContext :=
  { context with
    security :=
      { context.security with
        principal :=
          { context.security.principal with
            claims := sortFields context.security.principal.claims }
        attributes := sortFields context.security.attributes } }

/-- The mappings of a context are JSON objects without floating-point numbers but finite ones. -/
structure RunContext.Finite (context : RunContext) : Prop where
  claims : (Json.obj context.security.principal.claims).Finite
  attributes : (Json.obj context.security.attributes).Finite

/-! ### What is restored of a column -/

section Restore

variable {texts : Texts} {readings : Readings} {decimals : Decimals}
  (hreadings : readings.Documented decimals)
include hreadings

/-- An identifier that was accepted is accepted as it is. -/
theorem Readings.Documented.validateHex_of_eq_ok {value normalized fieldName : String}
    {length : ℕ} (h : readings.validateHex value length fieldName = .ok normalized) :
    readings.validateHex normalized length fieldName = .ok normalized := by
  rw [Readings.validateHex] at h ⊢
  split_ifs at h with hlength hhex
  cases h
  rw [hreadings.lower_lower, if_neg hlength, if_pos hhex]

/-- The parts of the column of a context that do not belong to the identity. -/
theorem restoreRequest_column {context : RunContext} {traceId spanId : String} {sampled : Bool}
    (htrace : TraceContext.make readings traceId spanId sampled = .ok context.traceContext) :
    restoreRequest texts readings context.column =
      .ok (context.requestId, context.traceContext,
        ⟨context.deadline, context.deadline_aware⟩) := by
  obtain ⟨trace, htraceId, htrace⟩ := exists_of_bind_eq_ok htrace
  obtain ⟨span, hspanId, htrace⟩ := exists_of_bind_eq_ok htrace
  obtain ⟨security, revisionId, requestId, traceContext, deadline, haware⟩ := context
  obtain rfl : ⟨trace, span, sampled⟩ = traceContext := Except.ok.inj htrace
  have hid : readings.uuid requestId.str = .ok requestId :=
    hreadings.uuid _ _ (UUID.ofText_str decimals _)
  have htraceId' := hreadings.validateHex_of_eq_ok htraceId
  have hspanId' := hreadings.validateHex_of_eq_ok hspanId
  rcases deadline with _ | d
  · simp [restoreRequest, RunContext.column, JsonObject.require, JsonObject.get?, bind, Except.bind,
      hid, htraceId', hspanId', Json.ofText?, Json.truthy]
  · have hdeadline : readings.datetime (String.ofList d.isoformat) = .ok d := by
      refine hreadings.datetime _ _ ?_
      rw [String.toList_ofList, d.ofIsoformat_isoformat]
    have htext : String.ofList d.isoformat ≠ "" := by
      simp [Datetime.isoformat]
    have hd : d.Aware := haware d rfl
    simp [restoreRequest, RunContext.column, JsonObject.require, JsonObject.get?, bind, Except.bind,
      hid, htraceId', hspanId', Json.ofText?, Json.truthy, htext, hdeadline, hd]

/-- What is restored of the column of a context. -/
theorem restoreContext_column {context : RunContext} {traceId spanId : String} {sampled : Bool}
    (htrace : TraceContext.make readings traceId spanId sampled = .ok context.traceContext)
    {run : Run} (hcontext : run.context = context.column)
    (htenant : run.tenantId = context.security.tenantId.val)
    (hrevision : run.revisionId = context.revisionId) :
    restoreContext texts readings run = .ret context := by
  have hne : run.context ≠ [] := by
    rw [hcontext]
    exact List.cons_ne_nil _ _
  have hsecurity : storedSecurity texts run.context run.tenantId = .ok context.security := by
    rw [hcontext, htenant, storedSecurity_column]
  have hrequest : restoreRequest texts readings context.column = _ :=
    restoreRequest_column hreadings htrace
  rw [← hcontext] at hrequest
  rw [restoreContext, hsecurity, hrequest]
  show (if run.context = [] then (_ : Process RunContext) else _) = _
  rw [if_neg hne]
  show Proc.ret _ = _
  rw [hrevision]

end Restore

/-! ### What is read from the text of a column -/

theorem sortItems_str (l : List String) : sortItems (l.map Json.str) = l.map Json.str := by
  induction l with
  | nil => rfl
  | cons s l ih => simp [sortItems, Json.sortKeys, ih]

theorem sortKeys_ofText? (text : Option String) : (Json.ofText? text).sortKeys = .ofText? text := by
  cases text <;> rfl

theorem finiteItems_str (l : List String) : FiniteItems (l.map Json.str) := by
  induction l with
  | nil => trivial
  | cons s l ih => exact ⟨trivial, ih⟩

theorem finite_ofText? (text : Option String) : (Json.ofText? text).Finite := by
  cases text <;> trivial

/-- The column of a context has its keys in order. -/
theorem sortFields_column (context : RunContext) :
    sortFields context.column = context.sorted.column := by
  have hgrants :
      sortItems ((context.security.grants.sort (· ≤ ·)).map fun grant => .str grant.val) =
      (context.security.grants.sort (· ≤ ·)).map fun grant => .str grant.val := by
    have hmap := sortItems_str ((context.security.grants.sort (· ≤ ·)).map Required.val)
    rwa [List.map_map] at hmap
  simp [RunContext.column, RunContext.sorted, sortFields, Json.sortKeys, fieldLe, hgrants,
    sortKeys_ofText?]

/-- The context of a run is read as it was written, with the keys of its mappings in order. -/
theorem loadColumn_dumpColumn {fl : FloatText}
    (hfl : ∀ bits, (doubleValue bits).isSome = true → fl.Survives bits) {context : RunContext}
    (hfinite : context.Finite) {t : List Char} (h : dumpColumn fl (.obj context.column) = .ok t) :
    loadColumn fl t = .ok context.sorted.column := by
  have hcolumn : (Json.obj context.column).Finite := by
    have hclaims := hfinite.claims
    have hattributes := hfinite.attributes
    have hgrants := finiteItems_str ((context.security.grants.sort (· ≤ ·)).map Required.val)
    rw [List.map_map] at hgrants
    refine ⟨by simp [RunContext.column], hattributes, finite_ofText? _, hgrants, ?_,
      finite_ofText? _, ?_⟩
    · exact ⟨by simp, hclaims, trivial, trivial, trivial⟩
    · exact ⟨trivial, trivial, trivial, trivial, trivial⟩
  have hdumps : dumpsSorted fl [] (.obj context.column) = some t := by
    rw [dumpColumn] at h
    split at h
    · cases h
      assumption
    · cases h
  rw [loadColumn, loads_dumpsSorted (by simp) hfl hcolumn hdumps]
  show Except.ok (sortFields context.column) = _
  rw [sortFields_column]

/-! ### Runs that were submitted -/

section Submitted

variable {sha : Sha256} {w w' : World} {i : UUID} {context : RunContext}

/-- The context of a submission is stored with the run `i`. -/
def World.Requested (w : World) (i : UUID) (context : RunContext) : Prop :=
  ∃ row ∈ w.db.runs.find? i, row.context = context.column ∧
    row.tenantId = context.security.tenantId.val ∧ row.revisionId = context.revisionId

variable (sha) in
/-- A request that no earlier run answers. -/
def Cmd.Unanswered (c : Cmd) (w : World) : Prop :=
  match c with
  | .store (.createRun run) => ∀ row ∈ w.db.runs.rows, ¬ SQLite.Repeats sha run row
  | _ => True

instance (w : World) : (c : Cmd) → Decidable (c.Unanswered sha w)
  | .store (.createRun _) => inferInstanceAs (Decidable (∀ _ ∈ _, _))
  | .store (.getRun _) | .store (.listRuns ..) | .store (.countRuns ..)
  | .store (.transitionRun ..) | .store (.listRunEvents ..) | .store (.appendRunEvent ..)
  | .store (.appendCheckpoint _) | .store (.latestCheckpoint _) | .store (.listCheckpoints _)
  | .store (.commitCheckpoint ..) | .store (.finishClaim ..) | .store (.createInterrupt ..)
  | .store (.getInterrupt _) | .store (.listInterrupts ..) | .store (.expireInterrupts _)
  | .store (.decideInterrupt ..) | .store (.claimNext ..) | .store (.renewLease ..)
  | .store (.assertFencingToken ..) | .store (.requeueExpiredLeases _) | .ledger _ | .now
  | .uuid4 | .elapsed | .startTool .. | .observe | .context _ => .isTrue trivial

theorem World.KeepsRequests.requested (h : w.KeepsRequests w') (hw : w.Requested i context) :
    w'.Requested i context := by
  obtain ⟨row, hrow, hcontext, htenant, hrevision⟩ := hw
  obtain ⟨row', hrow', hsame⟩ := h i row hrow
  have hcontext' : row'.context = row.context := congrArg RunRequest.context hsame
  have htenant' : row'.tenantId = row.tenantId := congrArg RunRequest.tenantId hsame
  have hrevision' : row'.revisionId = row.revisionId := congrArg RunRequest.revisionId hsame
  exact ⟨row', hrow', hcontext'.trans hcontext, htenant'.trans htenant, hrevision'.trans hrevision⟩

variable (sha) in
/-- A program among others that leave the requests of runs alone, and whose own requests no earlier
run answers. -/
abbrev Submits {ε α : Type} (p : Proc Cmd Cmd.Answer ε α) (Q : Except ε α → World → Prop)
    (w : World) : Prop :=
  p.Safe (World.exec sha) (fun _ => True) World.KeepsRequests (Cmd.Unanswered sha) Q w

theorem submits_perform {ε : Type} (c : Cmd) (w : World) :
    Submits sha (Proc.perform c : Proc Cmd Cmd.Answer ε c.Answer) (fun _ _ => True) w :=
  Proc.safe_call fun w₁ _ _ _ input => ⟨trivial, World.keepsRequests_exec sha c input w₁, trivial⟩

theorem closedOnSteps_submits : ClosedOnSteps fun _ _ p =>
    ∀ w, Submits sha p (fun _ _ => True) w where
  toClosed := Proc.closed_safe
  command c _ _ _ w := submits_perform c w

/-- The run that is made for a request that no earlier run answers. -/
theorem submits_createRun {s : Submission} {run : Run} (hcontext : run.context = s.context.column)
    (htenant : run.tenantId = s.context.security.tenantId.val)
    (hrevision : run.revisionId = s.context.revisionId) (w : World) :
    Submits sha (store (.createRun run)) (fun r w' => ∀ created : Run, r = .ok created →
      w'.Requested created.id s.context) w := by
  refine safe_store fun w₁ hR _ hE input =>
    ⟨trivial, World.keepsRequests_exec sha _ input w₁, ?_⟩
  rcases hr : (SQLite.perform sha ⟨.createRun run, input.clock⟩ w₁.db).1 with e | r
  · exact fun _ h => by cases h
  intro created hcreated
  cases hcreated
  obtain ⟨c', hy, hdb⟩ := World.exists_yields_of_ok sha hr
  rcases SQLite.answer_createRun hy with ⟨row, hrow, hrepeats, -⟩ | ⟨hmade, htakes⟩
  · exact absurd hrepeats (hE row hrow)
  · obtain ⟨fingerprint, hrow⟩ := htakes.step.of_create
    rw [hmade]
    exact ⟨_, hdb ▸ hrow, hcontext, htenant, hrevision⟩

/-- A submission that returns has stored its context. -/
theorem LocalRuntime.submits_submit (rt : LocalRuntime) (s : Submission) (w : World) :
    Submits sha (rt.submit s) (fun r w' => ∀ created, r = .ok created →
      w'.Requested created.id s.context) w := by
  have hG : ClosedOnSteps fun _ _ p => ∀ w, Submits sha p (fun _ _ => True) w :=
    closedOnSteps_submits
  have herror : ∀ (e : Exn) (w' : World) (created : Run),
      (Except.error e : Except Exn Run) = .ok created → w'.Requested created.id s.context :=
    fun _ _ _ h => by cases h
  rw [submit]
  refine (closed_ensureActive hG s.context w).bind (fun _ w' _ => ?_) fun e w' _ => herror e w'
  refine (hG.ofExcept _ w').bind (fun _ w' _ => ?_) fun e w' _ => herror e w'
  refine (hG.now w').bind (fun createdAt w' _ => ?_) fun e w' _ => herror e w'
  refine (hG.uuid4 w').bind (fun id w' _ => ?_) fun e w' _ => herror e w'
  rcases hcreate : Run.create s id createdAt with e | run
  · exact herror _ w'
  obtain ⟨hcontext, htenant⟩ := Run.create_eq_ok hcreate
  have hrevision : run.revisionId = s.context.revisionId := by
    rw [Run.create] at hcreate
    split_ifs at hcreate
    cases hcreate
    rfl
  refine (submits_createRun hcontext htenant hrevision w').bind (fun created w' hs => ?_)
    fun e w' _ => herror e w'
  refine Proc.safe_call fun w₁ hR _ _ input =>
    ⟨trivial, World.keepsRequests_exec sha _ input w₁, ?_⟩
  intro run' hrun'
  cases hrun'
  exact (World.keepsRequests_exec sha _ input w₁).requested (hR.requested (hs created rfl))

end Submitted

/-- **Contexts survive the store.** Among any other processes and along any schedule: when a
submission that no earlier run answers has returned, a context that is restored of its run, as it is
read from the store, is the submitted one, with the keys of its mappings in order. -/
theorem context_survives {sha : Sha256} {fl : FloatText} {texts : Texts} {readings : Readings}
    {decimals : Decimals} (hreadings : readings.Documented decimals)
    (hfl : ∀ bits, (doubleValue bits).isSome = true → fl.Survives bits)
    {α : Type} {result : Run → α} {x : Pool Cmd Cmd.Answer Exn α World} {j : ℕ}
    {rt : LocalRuntime} {s : Submission}
    (hj : x.procs[j]? = some do
      let created ← rt.submit s
      pure (result created))
    {traceId spanId : String} {sampled : Bool}
    (htrace : TraceContext.make readings traceId spanId sampled = .ok s.context.traceContext)
    (hfinite : s.context.Finite) {text : List Char}
    (hdump : dumpColumn fl (.obj s.context.column) = .ok text)
    {schedule : List (ℕ × Input)}
    (h : x.Along (World.exec sha)
      (fun y l => l.1 = j → Pool.Expected (Cmd.Unanswered sha) y l) schedule)
    {a : α} (ha : (x.run (World.exec sha) schedule).result? j = some a) :
    ∃ created, a = result created ∧
      ∃ row ∈ (x.run (World.exec sha) schedule).state.db.runs.find? created.id,
        ∀ stored, SQLite.runFromRow row = .ok stored → ∃ run, row.fetch fl = .ok run ∧
          restoreContext texts readings run = .ret s.context.sorted := by
  let Q : Except Exn α → World → Prop := fun r w => ∀ a, r = .ok a →
    ∃ created, a = result created ∧ w.Requested created.id s.context
  have hQ : ∀ r w w', Q r w → w.KeepsRequests w' → Q r w' := by
    intro r w w' hr hkeeps a ha
    obtain ⟨created, hcreated, hrequested⟩ := hr a ha
    exact ⟨created, hcreated, hkeeps.requested hrequested⟩
  have hsafe : Submits sha (do let created ← rt.submit s; pure (result created)) Q x.state := by
    refine (rt.submits_submit s x.state).bind (fun created w hw => ?_) fun e w _ a ha => by cases ha
    intro a ha
    cases ha
    exact ⟨created, rfl, hw created rfl⟩
  have hothers : ∀ (y : Pool Cmd Cmd.Answer Exn α World) l,
      y.state.KeepsRequests (y.step (World.exec sha) l).state := fun y l =>
    Pool.run_rel World.KeepsRequests.refl World.KeepsRequests.trans
      (World.keepsRequests_exec sha) y [l]
  obtain ⟨p, hp, -, hsafe'⟩ := Pool.safe_run_of_rely World.KeepsRequests.refl
    World.KeepsRequests.trans hQ hj trivial (fun _ _ _ _ => trivial) hsafe
    (h.imp fun y l hl => ⟨fun hown c hc => hl hown c (hown ▸ hc), fun _ => hothers y l⟩)
  rw [Pool.result?, hp] at ha
  obtain rfl := Proc.eq_ret_of_result? ha
  obtain ⟨created, rfl, row, hrow, hcontext, htenant, hrevision⟩ := hsafe' a rfl
  refine ⟨created, rfl, row, hrow, fun stored hstored => ?_⟩
  have hload := loadColumn_dumpColumn hfl hfinite hdump
  refine ⟨{ stored with context := s.context.sorted.column }, ?_, ?_⟩
  · rw [RunRow.fetch, hcontext, hdump]
    show (loadColumn fl text >>= _) = _
    rw [hload, hstored]
    rfl
  · obtain ⟨haware, hrun⟩ := SQLite.runFromRow_eq_ok.mp hstored
    have hsorted : TraceContext.make readings traceId spanId sampled =
        .ok s.context.sorted.traceContext := htrace
    refine restoreContext_column hreadings hsorted rfl ?_ ?_
    · rw [← hrun]
      exact htenant
    · rw [← hrun]
      exact hrevision

namespace Sample

/-- A number is written by its bits. -/
def bitsText (bits : BitVec 64) : List Char := '0' :: '.' :: Nat.toDigits 10 bits.toNat

theorem isNumeral_bitsText (bits : BitVec 64) : ∀ c ∈ bitsText bits, isNumeral c = true := by
  intro c hc
  rcases List.mem_cons.mp hc with rfl | hc
  · decide
  rcases List.mem_cons.mp hc with rfl | hc
  · decide
  · exact isNumeral_of_isDigit (isDigit_of_mem_toDigits c hc)

/-- A number is read by its bits. -/
def bits : FloatText where
  text := bitsText
  read t := BitVec.ofNat 64 (Nat.ofDigitChars 10 (t.drop 2) 0)
  isNumeral_text := isNumeral_bitsText

theorem survives_bits (b : BitVec 64) : bits.Survives b := by
  intro u hu
  obtain ⟨c, ds, hds, hc⟩ := exists_toDigits b.toNat
  have hrest : ∀ d ∈ ds, d.isDigit = true := fun d hd =>
    isDigit_of_mem_toDigits d (by rw [hds]; exact List.mem_cons_of_mem _ hd)
  have hfraction : scanFraction ('.' :: c :: (ds ++ u)) = ('.' :: c :: ds, u) := by
    rw [scanFraction, if_pos hc, scanDigits_append hrest hu]
  have hnumeral : scanNumeral (bitsText b ++ u) = some (bitsText b, true, u) := by
    simp [scanNumeral, bitsText, hds, scanSign, scanInteger, hfraction, scanExponent_delimited hu]
  have hconstant : scanConstant bits (bitsText b ++ u) = none := by
    simp [scanConstant, constants, bitsText]
  have hvalue : bits.read (bitsText b) = b := by
    show BitVec.ofNat 64 (Nat.ofDigitChars 10 (Nat.toDigits 10 b.toNat) 0) = b
    rw [Nat.ofDigitChars_ten_toDigits, BitVec.ofNat_toNat, BitVec.setWidth_eq]
  show scanScalar bits (bitsText b ++ u) = _
  rw [scanScalar, hconstant]
  dsimp only
  rw [scanNumber, hnumeral]
  dsimp only
  rw [hvalue]

/-- What is read as documented, of letters and digits of ASCII. -/
def documented : Readings where
  uuid text := match UUID.ofText decimals text with
    | some u => .ok u
    | none => .error (.store (.valueError "badly formed hexadecimal UUID string"))
  datetime text := match Datetime.ofIsoformat text.toList with
    | some d => .ok d
    | none => .error (.store (.valueError "Invalid isoformat string"))
  lower text := String.ofList (text.toList.map Char.toLower)
  isHex text := text.toList.all fun c => c.isDigit || ('a' ≤ c && c ≤ 'f')

theorem documented_documented : documented.Documented decimals where
  uuid text u h := by
    show (match UUID.ofText decimals text with | some u => _ | none => _) = _
    rw [h]
  datetime text d h := by
    show (match Datetime.ofIsoformat text.toList with | some d => _ | none => _) = _
    rw [h]
  lower_lower := map_toLower_map_toLower

theorem aware_end : ∀ d ∈ some (Datetime.utc (reading 900)), d.Aware := by
  rintro d ⟨⟩
  exact (Datetime.isUtc_utc _).aware

/-- The context of a service that acts for a project until the end of a day. -/
def service : RunContext where
  security :=
    { principal := ⟨⟨"billing", by decide, by decide⟩, .service,
        [("scope", .str "all"), ("age", .int 3)]⟩
      tenantId := tenant
      projectId := some ⟨"ledger", by decide, by decide⟩
      grants := {⟨"run.read", by decide, by decide⟩, ⟨"run.create", by decide, by decide⟩}
      attributes := [("region", .arr [.str "eu", .null])] }
  revisionId := run.revisionId
  requestId := ⟨7⟩
  traceContext := ⟨"0af7651916cd43dd8448eb211c80319c", "b7ad6b7169203331", false⟩
  deadline := some (.utc (reading 900))
  deadline_aware := aware_end

/-- A submission, a worker and a sweep over the leases. -/
def serving : Pool Cmd Cmd.Answer Exn Outcome World where
  state := ⟨.empty, .empty, [], .empty⟩
  procs := [
    do let created ← (runtime none).submit (submission service); pure (.worked (some created)),
    do let r ← (runtime none).workOnce 1 "first" (.finite 30) none none; pure (.worked r),
    do let _ ← store (.requeueExpiredLeases none); pure .done]

/-- The run is submitted and claimed, the worker crashes, and its lease expires. -/
def served : List (ℕ × Input) :=
  List.replicate 5 (0, input 1) ++ List.replicate 2 (1, input 2) ++ [(2, input 60)]

end Sample

/-- The context of a run that was claimed and put back into the queue. -/
theorem context_survives_sample : ∃ created : Run,
    ∃ row ∈
      (Sample.serving.run (World.exec Sample.sha) Sample.served).state.db.runs.find? created.id,
      row.status = .queued ∧ ∀ stored, SQLite.runFromRow row = .ok stored →
        ∃ run, row.fetch Sample.bits = .ok run ∧
          restoreContext Sample.texts Sample.documented run = .ret Sample.service.sorted := by
  obtain ⟨text, htext⟩ : ∃ text, dumpColumn Sample.bits (.obj Sample.service.column) =
    .ok text := by
    have hthree : (dumpsInt 3).countP Char.isDigit ≤ 4300 := by decide
    have hgrants : ∀ l : List Required, writableItems (l.map fun g => Json.str g.val) = true :=
      fun l => writableItems_eq_true (List.forall_mem_map.mpr fun _ _ => rfl)
    have hwritable : (Json.obj Sample.service.column).isWritable = true := by
      simp [Sample.service, RunContext.column, Json.isWritable, writableFields, writableItems,
        Json.ofText?, hthree, hgrants]
    rw [dumpColumn, dumpsSorted, if_pos hwritable]
    exact ⟨_, rfl⟩
  have htrace : TraceContext.make Sample.documented "0AF7651916CD43DD8448EB211C80319C"
      "b7ad6b7169203331" false = .ok Sample.service.traceContext := by decide +kernel
  have hfinite : Sample.service.Finite :=
    ⟨⟨by simp [Sample.service], trivial, trivial, trivial⟩,
      ⟨by simp [Sample.service], ⟨trivial, trivial, trivial⟩, trivial⟩⟩
  obtain ⟨a, ha⟩ : ∃ a,
      (Sample.serving.run (World.exec Sample.sha) Sample.served).result? 0 = some a :=
    Option.isSome_iff_exists.mp (by decide +kernel)
  obtain ⟨created, -, row, hrow, hrestored⟩ := context_survives Sample.documented_documented
    (fun bits _ => Sample.survives_bits bits) (j := 0) (s := Sample.submission Sample.service)
    rfl htrace hfinite htext (by decide +kernel) ha
  have hqueued : ∀ row ∈
      (Sample.serving.run (World.exec Sample.sha) Sample.served).state.db.runs.rows,
      row.status = .queued := by decide +kernel
  exact ⟨created, row, hrow, hqueued row (Table.mem_of_find? hrow), hrestored⟩

end OpenRath
