import OpenRath.Runtime.Invocations

/-!
# Replays of calls

After a crash, a run is requeued when its lease has expired, and the next worker repeats the steps
since the last checkpoint. A call of a tool that is not idempotent is then prepared again, for the
same position of the run. It is recognised by its idempotency key and by nothing else: without a
key, the ledger makes a second invocation, and the handler is started a second time, whether or not
the first invocation has become ambiguous meanwhile.

If all calls at a position carry one key, which no call of the tool with the same arguments uses in
the run under another effect class, they share one invocation, and the handler is started at most
once.

## Main definitions

* `Position`, `World.startsAt`: the starts of calls that are not idempotent at a position.
* `OneKey`: the calls at a position carry one key.

## Main results

* `no_blind_replay`: at most one start at a position along every run whose calls carry one key.
* `blind_replay`: a run that starts the handler twice.
-/

namespace OpenRath

open Process

/-! ### Positions -/

/-- A position of a run at which a tool is called: the node, the checkpoint sequence and the digest
of the arguments. -/
structure Position where
  runId : UUID
  toolName : String
  nodeId : String
  checkpointSequence : Option ℤ
  argumentsDigest : String
deriving DecidableEq

/-- A call at a position of a tool that is not idempotent. -/
def ToolCall.At (digest : JsonObject → String) (P : Position) (call : ToolCall) : Prop :=
  call.runId = some P.runId ∧ call.spec.recordedName = P.toolName ∧
    call.spec.effects = .nonIdempotent ∧ digest call.arguments = P.argumentsDigest ∧
    call.nodeId = P.nodeId ∧ call.checkpointSequence = P.checkpointSequence

instance (digest : JsonObject → String) (P : Position) :
    DecidablePred (ToolCall.At digest P) := fun _ => inferInstanceAs (Decidable (_ ∧ _))

/-- How often the handler of a call at a position was started. -/
def World.startsAt (digest : JsonObject → String) (P : Position) (w : World) : ℕ :=
  w.started.countP fun s => s.1.At digest P

/-- The operation by which a call at a position is prepared under a key. -/
def Position.prepareOp (P : Position) (key : Option String) : LedgerOp :=
  .prepare P.runId P.toolName .nonIdempotent P.argumentsDigest key (some P.nodeId)
    P.checkpointSequence

/-- The key under which a call at a position is prepared. -/
def LedgerOp.keyAt (P : Position) : LedgerOp → Option (Option String)
  | prepare runId toolName effectClass digest key nodeId sequence =>
    if runId = P.runId ∧ toolName = P.toolName ∧ effectClass = .nonIdempotent ∧
      digest = P.argumentsDigest ∧ nodeId = some P.nodeId ∧ sequence = P.checkpointSequence
    then some key else none
  | _ => none

/-- The key under which a command prepares a call at a position. -/
def Cmd.keyAt (P : Position) : Cmd → Option (Option String)
  | ledger op => op.keyAt P
  | _ => none

/-- A command that prepares a call of another effect class under a key, in the same run and of the
same tool with the same arguments. -/
def Cmd.PreparesOther (runId : UUID) (toolName digest key : String) : Cmd → Prop
  | ledger (.prepare runId' toolName' effectClass digest' key' _ _) =>
    runId' = runId ∧ toolName' = toolName ∧ digest' = digest ∧ effectClass ≠ .nonIdempotent ∧
      key' = some key
  | _ => False

instance (runId : UUID) (toolName digest key : String) :
    DecidablePred (Cmd.PreparesOther runId toolName digest key)
  | .ledger (.prepare ..) => inferInstanceAs (Decidable (_ ∧ _))
  | .ledger (.markDispatched _) | .ledger (.complete ..) | .ledger (.fail ..) | .ledger (.get _)
  | .ledger (.reconcileStale _) | .ledger (.watermark _) => .isFalse id
  | .store _ | .now | .uuid4 | .elapsed | .startTool .. | .observe | .context _ => .isFalse id

/-- All calls at a position are prepared under one key, if there are several, and no call of
another effect class is prepared under it in the run, of the same tool with the same arguments. -/
def OneKey (P : Position) (cs : List Cmd) : Prop :=
  (cs.filterMap (Cmd.keyAt P)).Pairwise (fun k k' => k ≠ none ∧ k = k') ∧
    ∀ k ∈ cs.filterMap (Cmd.keyAt P), ∀ key ∈ k, ∀ c ∈ cs,
      ¬ c.PreparesOther P.runId P.toolName P.argumentsDigest key

instance (P : Position) (cs : List Cmd) : Decidable (OneKey P cs) :=
  inferInstanceAs (Decidable (_ ∧ _))

theorem OneKey.of_append {P : Position} {cs cs' : List Cmd} (h : OneKey P (cs ++ cs')) :
    OneKey P cs := by
  obtain ⟨hpair, hother⟩ := h
  rw [List.filterMap_append] at hpair hother
  exact ⟨(List.pairwise_append.mp hpair).1, fun k hk key hkey c hc =>
    hother k (List.mem_append_left _ hk) key hkey c (List.mem_append_left _ hc)⟩

theorem ToolCall.At.keyAt_ne_none {digest : JsonObject → String} {P : Position} {call : ToolCall}
    (h : call.At digest P) {runId : UUID} (hrun : call.runId = some runId) :
    (call.prepareOp digest runId).keyAt P ≠ none := by
  obtain ⟨hrun', hname, hclass, hdigest, hnode, hsequence⟩ := h
  cases hrun.symm.trans hrun'
  rw [prepareOp, LedgerOp.keyAt, if_pos ⟨rfl, hname, hclass, hdigest, by rw [hnode], hsequence⟩]
  exact Option.some_ne_none _

theorem LedgerOp.of_keyAt {P : Position} {op : LedgerOp} {key : Option String}
    (h : op.keyAt P = some key) : op = P.prepareOp key := by
  cases op with
  | prepare =>
    rw [keyAt] at h
    split_ifs at h with hP
    obtain ⟨rfl, rfl, rfl, rfl, rfl, rfl⟩ := hP
    cases h
    rfl
  | markDispatched | complete | fail | get | reconcileStale | watermark => cases h

/-! ### The invocation of a position -/

/-- The preparation that a worker in a phase has made. -/
def Phase.Uses (op : LedgerOp) (id : UUID) : Phase → Prop
  | ready op' id' | holds op' id' => op' = op ∧ id' = id
  | idle => False

/-- The calls at a position share the invocation `o`, if there is one: workers that have prepared
such a call have prepared it, handlers were started for it, and it is recorded as not idempotent
under the key of all calls so far. -/
structure Shared (digest : JsonObject → String) (P : Position) (o : Option UUID) (cs : List Cmd)
    (w : World) (ls : List Phase) : Prop where
  phases : ∀ l ∈ ls, ∀ op id, l.Uses op id → op.keyAt P ≠ none → o = some id
  started : ∀ s ∈ w.started, s.1.At digest P → s.2 = o ∧ o ≠ none
  recorded : ∀ id, o = some id → cs.filterMap (Cmd.keyAt P) ≠ [] ∧
    ∃ row, w.invocations.find? id = some row ∧ row.runId = P.runId ∧
      row.effectClass = .nonIdempotent ∧
      ∀ key ∈ cs.filterMap (Cmd.keyAt P), row.idempotencyKey = key

/-- Invocations of other effect classes under a key were prepared as such. -/
def OthersPrepared (cs : List Cmd) (w : World) : Prop :=
  ∀ row ∈ w.invocations.rows, row.effectClass ≠ .nonIdempotent → ∀ key,
    row.idempotencyKey = some key →
      ∃ c ∈ cs, c.PreparesOther row.runId row.toolName row.argumentsDigest key

section Steps

variable {sha : Sha256} {digest : JsonObject → String} {P : Position} {o : Option UUID}
  {cs : List Cmd} {w : World} {ls : List Phase} {c : Cmd} {i : Input}

theorem othersPrepared_step (h : OthersPrepared cs w) :
    OthersPrepared (cs ++ [c]) (World.exec sha c i w).2 := by
  intro row' hrow' hclass key hkey
  have hfind' := Table.find?_of_mem hrow'
  rcases hfind : w.invocations.find? row'.id with _ | row
  · cases c with
    | ledger op =>
      obtain ⟨runId, toolName, effectClass, arguments, key', nodeId, sequence, rfl, hnew⟩ :=
        Ledger.exists_prepare_of_new hfind hfind'
      refine ⟨_, List.mem_append_right _ (List.mem_singleton_self _), hnew.runId_eq.symm,
        hnew.toolName_eq.symm, hnew.argumentsDigest_eq.symm, ?_, ?_⟩
      · rw [← hnew.effectClass_eq]
        exact hclass
      · rw [← hnew.idempotencyKey_eq]
        exact hkey
    | store | now | uuid4 | elapsed | startTool | observe | context => cases hfind.symm.trans hfind'
  · obtain ⟨row'', hrow'', hmove⟩ := World.exists_moves_exec sha c i hfind
    cases hfind'.symm.trans hrow''
    obtain ⟨hrun, htool, hdigest, hclass', hkey'⟩ : row'.runId = row.runId ∧
        row'.toolName = row.toolName ∧ row'.argumentsDigest = row.argumentsDigest ∧
        row'.effectClass = row.effectClass ∧ row'.idempotencyKey = row.idempotencyKey := by
      rcases hmove with rfl | ⟨op, -, hmove⟩
      · exact ⟨rfl, rfl, rfl, rfl, rfl⟩
      · exact hmove.kept.2
    rw [hclass'] at hclass
    rw [hkey'] at hkey
    obtain ⟨c', hc', hother⟩ := h row (Table.mem_of_find? hfind) hclass key hkey
    rw [hrun, htool, hdigest]
    exact ⟨c', List.mem_append_left _ hc', hother⟩

/-- The key of an earlier call at the position is that of a further one. -/
theorem OneKey.key_eq (h : OneKey P (cs ++ [c])) {key k : Option String}
    (hkey : c.keyAt P = some key) (hk : k ∈ cs.filterMap (Cmd.keyAt P)) : k ≠ none ∧ k = key := by
  have hpair := h.1
  rw [List.filterMap_append] at hpair
  refine (List.pairwise_append.mp hpair).2.2 k hk key ?_
  simp [hkey]

/-- A command that prepares an invocation in a phase is the one that the phase remembers. -/
theorem Phase.uses_of_advance {l : Phase} {r : c.Answer} {op : LedgerOp} {id : UUID}
    (h : (l.advance c r).Uses op id) : l.Uses op id ∨ c = .ledger op := by
  cases c with
  | ledger op' =>
    cases op' with
    | prepare runId toolName effectClass arguments key nodeId sequence =>
      rcases r with e | row
      · cases l <;> exact h.elim
      · cases l <;> exact Or.inr (congrArg Cmd.ledger h.1)
    | markDispatched id' =>
      cases l with
      | idle | holds => exact Or.inl h
      | ready op₀ id₀ =>
        rcases r with e | u
        · exact h.elim
        · exact Or.inl h
    | complete | fail | get | reconcileStale | watermark => cases l <;> exact Or.inl h
  | startTool => cases l <;> exact h.elim
  | store | now | uuid4 | elapsed | observe | context => cases l <;> exact Or.inl h

namespace Shared

/-- The shared invocation stays recorded. -/
theorem recorded_exec (h : Shared digest P o cs w ls) {id : UUID} (ho : o = some id) :
    ∃ row, (World.exec sha c i w).2.invocations.find? id = some row ∧ row.runId = P.runId ∧
      row.effectClass = .nonIdempotent ∧
      ∀ key ∈ cs.filterMap (Cmd.keyAt P), row.idempotencyKey = key := by
  obtain ⟨-, row, hrow, hrun, hclass, hkeys⟩ := h.recorded id ho
  obtain ⟨row', hrow', hmove⟩ := World.exists_moves_exec sha c i hrow
  rcases hmove with rfl | ⟨op, -, hmove⟩
  · exact ⟨row', hrow', hrun, hclass, hkeys⟩
  · obtain ⟨-, hrun', -, -, hclass', hkey'⟩ := hmove.kept
    refine ⟨row', hrow', hrun'.trans hrun, hclass'.trans hclass, fun key hkey => ?_⟩
    exact hkey'.trans (hkeys key hkey)

/-- A command that prepares no call at the position leaves the shared invocation as it is. -/
theorem step_of_keyAt_eq_none (h : Shared digest P o cs w ls) (hc : c.keyAt P = none) {j : ℕ}
    {l : Phase} (hl : ls[j]? = some l) (hallows : l.Allows digest c) :
    Shared digest P o (cs ++ [c]) (World.exec sha c i w).2
      (ls.set j (l.advance c (World.exec sha c i w).1)) := by
  have hmem : l ∈ ls := List.mem_of_getElem? hl
  have hcalls : (cs ++ [c]).filterMap (Cmd.keyAt P) = cs.filterMap (Cmd.keyAt P) := by
    simp [List.filterMap_append, hc]
  refine ⟨fun l' hl' op id huses hop => ?_, fun s hs hat => ?_, fun id ho => ?_⟩
  · rcases List.mem_or_eq_of_mem_set hl' with hold | rfl
    · exact h.phases l' hold op id huses hop
    · rcases Phase.uses_of_advance huses with hl | rfl
      · exact h.phases l hmem op id hl hop
      · exact absurd hc hop
  · cases c with
    | startTool call id? =>
      rcases List.mem_append.mp hs with hold | hnew
      · exact h.started s hold hat
      obtain rfl := List.mem_singleton.mp hnew
      -- The worker that starts the handler has prepared the call.
      cases l with
      | idle | ready => exact hallows.elim
      | holds op id =>
        rcases id? with _ | id'
        · exact hallows.elim
        obtain ⟨rfl, runId, hrun, rfl⟩ := hallows
        have ho := h.phases _ hmem _ id' ⟨rfl, rfl⟩ (hat.keyAt_ne_none hrun)
        exact ⟨ho.symm, ho ▸ Option.some_ne_none _⟩
    | store | ledger | now | uuid4 | elapsed | observe | context => exact h.started s hs hat
  · rw [hcalls]
    exact ⟨(h.recorded id ho).1, h.recorded_exec ho⟩

/-- A preparation at the position returns the shared invocation, if there is one, and an invocation
under the key of the call that is not idempotent. -/
theorem prepared (h : Shared digest P o cs w ls) (hothers : OthersPrepared cs w)
    (hordered : Ledger.Ordered w.invocations.rows) {key : Option String}
    (hc : c.keyAt P = some key) (hkeys : OneKey P (cs ++ [c])) {row : ToolInvocation}
    {d : LedgerConnection} (hy : (P.prepareOp key).body.Yields
      ⟨w.db.runs, w.invocations, i.clock, i.uuid⟩ row d) :
    d.invocations.find? row.id = some row ∧ row.runId = P.runId ∧
      row.effectClass = .nonIdempotent ∧ row.idempotencyKey = key ∧
      ∀ id, o = some id → id = row.id := by
  -- What is recorded of the shared invocation.
  have hshared : ∀ id, o = some id → ∃ row₀, w.invocations.find? id = some row₀ ∧
      row₀.runId = P.runId ∧ key ≠ none ∧ row₀.idempotencyKey = key := by
    intro id ho
    obtain ⟨hne, row₀, hrow₀, hrun₀, -, hkey₀⟩ := h.recorded id ho
    obtain ⟨k, hk⟩ := List.exists_mem_of_ne_nil _ hne
    obtain ⟨hsome, rfl⟩ := hkeys.key_eq hc hk
    exact ⟨row₀, hrow₀, hrun₀, hsome, hkey₀ k hk⟩
  obtain ⟨-, ⟨hfound, hdigest, htool, hsame⟩ | ⟨hnone, hnew, hins⟩⟩ := Ledger.prepare_cases hy
  · obtain ⟨hmem, hrun, hsome, hkey⟩ := Ledger.underKey_eq_some hfound
    refine ⟨by rw [hsame]; exact Table.find?_of_mem hmem, hrun, ?_, hkey, fun id ho => ?_⟩
    · by_contra hclass
      obtain ⟨k, rfl⟩ := Option.ne_none_iff_exists'.mp hsome
      obtain ⟨c', hc', hother⟩ := hothers row hmem hclass k hkey
      rw [hrun, htool, hdigest] at hother
      refine hkeys.2 (some k) ?_ k rfl c' (List.mem_append_left _ hc') hother
      exact List.mem_filterMap.mpr ⟨c, List.mem_append_right _ (List.mem_singleton_self _), hc⟩
    · obtain ⟨row₀, hrow₀, hrun₀, -, hkey₀⟩ := hshared id ho
      have heq := hordered.keys row hmem row₀ (Table.mem_of_find? hrow₀)
        (hrun.trans hrun₀.symm) (hkey ▸ hsome) (hkey.trans hkey₀.symm)
      rw [heq, Table.key_of_find? hrow₀]
  · have hrow : d.invocations.find? row.id = some row := by
      rw [Table.find?_insert? hins, if_pos rfl]
    refine ⟨hrow, hnew.runId_eq, hnew.effectClass_eq, hnew.idempotencyKey_eq, fun id ho => ?_⟩
    -- An invocation that is shared already would have been found under the key.
    obtain ⟨row₀, hrow₀, hrun₀, hsome, hkey₀⟩ := hshared id ho
    obtain ⟨k, rfl⟩ := Option.ne_none_iff_exists'.mp hsome
    have hunder := hordered.underKey_of_mem (Table.mem_of_find? hrow₀) hkey₀
    rw [hrun₀] at hunder
    cases hnone.symm.trans hunder

/-- After a preparation at the position its invocation is the shared one. -/
theorem step_of_prepared (h : Shared digest P o cs w ls) (hothers : OthersPrepared cs w)
    (hordered : Ledger.Ordered w.invocations.rows) {key : Option String}
    (hkeys : OneKey P (cs ++ [Cmd.ledger (P.prepareOp key)])) {j : ℕ} (l : Phase) :
    ∃ o', Shared digest P o' (cs ++ [Cmd.ledger (P.prepareOp key)])
      (World.exec sha (.ledger (P.prepareOp key)) i w).2
      (ls.set j (l.advance (.ledger (P.prepareOp key))
        (World.exec sha (.ledger (P.prepareOp key)) i w).1)) := by
  have hc : Cmd.keyAt P (.ledger (P.prepareOp key)) = some key :=
    if_pos ⟨rfl, rfl, rfl, rfl, rfl, rfl⟩
  have hcalls : (cs ++ [Cmd.ledger (P.prepareOp key)]).filterMap (Cmd.keyAt P) =
      cs.filterMap (Cmd.keyAt P) ++ [key] := by
    rw [List.filterMap_append, List.filterMap_cons_some hc, List.filterMap_nil]
  have hne : (cs ++ [Cmd.ledger (P.prepareOp key)]).filterMap (Cmd.keyAt P) ≠ [] := by
    rw [hcalls]
    exact List.append_ne_nil_of_right_ne_nil _ (List.cons_ne_nil _ _)
  rcases hr : (World.exec sha (.ledger (P.prepareOp key)) i w).1 with e | row
  · have hidle : l.advance (.ledger (P.prepareOp key)) (.error e) = .idle := by cases l <;> rfl
    refine ⟨o, fun l' hl' op id huses hop => ?_, h.started, fun id ho => ?_⟩
    · rcases List.mem_or_eq_of_mem_set hl' with hold | rfl
      · exact h.phases l' hold op id huses hop
      · rw [hidle] at huses
        exact huses.elim
    · obtain ⟨hold, row, hrow, hrun, hclass, hkey⟩ := h.recorded id ho
      obtain ⟨k, hk⟩ := List.exists_mem_of_ne_nil _ hold
      refine ⟨hne, row, ?_, hrun, hclass, fun k' hk' => ?_⟩
      · change (Ledger.perform _ _ _ _ _).2.find? id = _
        rwa [Ledger.perform_of_error hr]
      · rw [hcalls] at hk'
        rcases List.mem_append.mp hk' with hold | hnew
        · exact hkey k' hold
        · rw [List.mem_singleton.mp hnew, ← (hkeys.key_eq hc hk).2]
          exact hkey k hk
  · obtain ⟨d, hy, hd⟩ := Ledger.perform_of_ok hr
    obtain ⟨hrow, hrun, hclass, hkey, hsame⟩ := h.prepared hothers hordered hc hkeys hy
    have hready : l.advance (.ledger (P.prepareOp key)) (.ok row) =
        .ready (P.prepareOp key) (ToolInvocation.id row) := by cases l <;> rfl
    refine ⟨some (ToolInvocation.id row), fun l' hl' op id huses hop => ?_,
      fun s hs hat => ?_, fun id ho => ?_⟩
    · rcases List.mem_or_eq_of_mem_set hl' with hold | rfl
      · exact congrArg some (hsame id (h.phases l' hold op id huses hop)).symm
      · rw [hready] at huses
        exact congrArg some huses.2
    · obtain ⟨hs', hsome⟩ := h.started s hs hat
      obtain ⟨id, rfl⟩ := Option.ne_none_iff_exists'.mp hsome
      exact ⟨hs'.trans (congrArg some (hsame id rfl)), Option.some_ne_none _⟩
    · cases ho
      refine ⟨hne, row, ?_, hrun, hclass, fun k hk => ?_⟩
      · change (Ledger.perform _ _ _ _ _).2.find? _ = _
        rw [← hd]
        exact hrow
      · rw [hcalls] at hk
        rcases List.mem_append.mp hk with hold | hnew
        · rw [(hkeys.key_eq hc hold).2]
          exact hkey
        · rw [List.mem_singleton.mp hnew]
          exact hkey

/-- An allowed command keeps that the calls at the position share an invocation. -/
theorem exists_step (h : Shared digest P o cs w ls) (hothers : OthersPrepared cs w)
    (hordered : Ledger.Ordered w.invocations.rows) (hkeys : OneKey P (cs ++ [c])) {j : ℕ}
    {l : Phase} (hl : ls[j]? = some l) (hallows : l.Allows digest c) :
    ∃ o', Shared digest P o' (cs ++ [c]) (World.exec sha c i w).2
      (ls.set j (l.advance c (World.exec sha c i w).1)) := by
  rcases hkey : c.keyAt P with _ | key
  · exact ⟨o, h.step_of_keyAt_eq_none hkey hl hallows⟩
  · cases c with
    | ledger op =>
      obtain rfl := LedgerOp.of_keyAt hkey
      exact h.step_of_prepared hothers hordered hkeys l
    | store | now | uuid4 | elapsed | startTool | observe | context => cases hkey

/-- The handler is started at most once at the position. -/
theorem startsAt_le_one (h : Shared digest P o cs w ls) (honce : AtMostOnce w ls) :
    w.startsAt digest P ≤ 1 := by
  rcases o with _ | id
  · have hnone : w.startsAt digest P = 0 :=
      List.countP_eq_zero.mpr fun s hs hat => (h.started s hs (of_decide_eq_true hat)).2 rfl
    omega
  · obtain ⟨-, row, hrow, -, hclass, -⟩ := h.recorded id rfl
    have hle : w.startsAt digest P ≤ w.starts id := List.countP_mono_left fun s hs hat =>
      decide_eq_true (h.started s hs (of_decide_eq_true hat)).1
    have huses := honce.once id row hrow (Or.inl hclass)
    rw [World.uses] at huses
    split_ifs at huses <;> omega

end Shared

end Steps

/-! ### Runs -/

/-- **No blind replay.** Along every run of a system of clients whose calls at a position carry one
key, the handler is started at most once at that position. -/
theorem no_blind_replay (sha : Sha256) {digest : JsonObject → String} {P : Position}
    {x : Pool Cmd Cmd.Answer Exn Json World} (hx : x.Fresh digest) (schedule : List (ℕ × Input))
    (hkeys : OneKey P (x.trace (World.exec sha) schedule)) :
    (x.run (World.exec sha) schedule).state.startsAt digest P ≤ 1 := by
  let I : List Cmd → World → List Phase → Prop := fun cs w ls =>
    (∃ o, Shared digest P o cs w ls) ∧ OthersPrepared cs w ∧
      Ledger.Ordered w.invocations.rows ∧ AtMostOnce w ls
  have hstep : ∀ cs w ls (j : ℕ) (l : Phase) c i, OneKey P (cs ++ [c]) → I cs w ls →
      ls[j]? = some l →
      (dispatching digest).allows l c → I (cs ++ [c]) (World.exec sha c i w).2
        (ls.set j ((dispatching digest).advance l c (World.exec sha c i w).1)) := by
    intro cs w ls j l c i hD ⟨⟨o, hshared⟩, hothers, hordered, honce⟩ hl hallows
    refine ⟨hshared.exists_step hothers hordered hD hl hallows, othersPrepared_step hothers, ?_,
      honce.step hl hallows⟩
    exact hordered.exec
  have hstart : I [] x.state (List.replicate x.procs.length .idle) := by
    refine ⟨⟨none, fun l hl op id huses => ?_, fun s hs => ?_, fun id ho => ?_⟩, ?_, ?_,
      atMostOnce_empty hx.invocations_eq hx.started_eq _⟩
    · rw [List.eq_of_mem_replicate hl] at huses
      exact huses.elim
    · rw [hx.started_eq] at hs
      cases hs
    · cases ho
    · intro row hrow
      rw [hx.invocations_eq] at hrow
      cases hrow
    · rw [hx.invocations_eq]
      exact Ledger.ordered_nil
  obtain ⟨ls, -, ⟨o, hshared⟩, -, -, honce⟩ := Pool.follows_run (D := OneKey P) (I := I)
    (answers_exec sha) (fun _ _ h => h.of_append) hstep []
    (Pool.follows_replicate (fun p hp => (hx.clients p hp).obeys) Phase.idle) hstart schedule hkeys
  exact hshared.startsAt_le_one honce

namespace Sample

/-- Two workers that are going to call the tool under an optional key, and a sweep over leases; the
run is created. -/
def callers (key : Option String) : Pool Cmd Cmd.Answer Exn Json World where
  state := ⟨SQLite.after sha [⟨.createRun run, clock 0⟩], .empty, [], .empty⟩
  procs := [
    do let _ ← (runtime key).workOnce 1 "first" (.finite 30) none none; pure .null,
    do let _ ← (runtime key).workOnce 1 "second" (.finite 30) none none; pure .null,
    do let _ ← store (.requeueExpiredLeases none); pure .null]

theorem fresh_callers (key : Option String) :
    (callers key).Fresh (runtime key).steps.executor.argumentsDigest where
  clients p hp := by
    rcases List.mem_cons.mp hp with rfl | hp
    · exact .work _ _ _ _ _ _ rfl rfl
    rcases List.mem_cons.mp hp with rfl | hp
    · exact .work _ _ _ _ _ _ rfl rfl
    · obtain rfl := List.mem_singleton.mp hp
      exact .other _ ⟨trivial, fun r => by cases r <;> trivial⟩
  invocations_eq := rfl
  started_eq := rfl

/-- The first worker crashes after the start of the tool, and the second one repeats the step. -/
def repeated : List (ℕ × Input) :=
  List.replicate 9 (0, input 1) ++ List.replicate 4 (0, input 2) ++ [(2, input 40)] ++
    List.replicate 9 (1, input 41) ++ List.replicate 4 (1, input 42)

/-- The position of the call. -/
def position : Position where
  runId := run.id
  toolName := "charge@1"
  nodeId := "first"
  checkpointSequence := some 1
  argumentsDigest := (runtime none).steps.executor.argumentsDigest []

end Sample

/-- With a key, the tool is not started again. -/
theorem no_blind_replay_sample :
    ((Sample.callers (some "key")).run (World.exec Sample.sha) Sample.repeated).state.startsAt
      (Sample.runtime none).steps.executor.argumentsDigest Sample.position ≤ 1 :=
  no_blind_replay Sample.sha (Sample.fresh_callers (some "key")) Sample.repeated
    (by decide +kernel)

/-- **A blind replay.** Without a key, the call of the crashed worker is not recognised, and the
handler is started twice at one position, though no run has gone back to the queue from
`NEEDS_REVIEW`. -/
theorem blind_replay : (Sample.callers none).Fresh
      (Sample.runtime none).steps.executor.argumentsDigest ∧
    (Sample.callers none).Along (World.exec Sample.sha)
      (fun y l => ¬ y.state.ReturnsToQueue (y.step (World.exec Sample.sha) l).state)
      Sample.repeated ∧
    ((Sample.callers none).run (World.exec Sample.sha) Sample.repeated).state.startsAt
      (Sample.runtime none).steps.executor.argumentsDigest Sample.position = 2 := by
  refine ⟨Sample.fresh_callers none, ?_, ?_⟩ <;> decide +kernel

end OpenRath
