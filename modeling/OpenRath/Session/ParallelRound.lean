import OpenRath.Flow.SystemTool
import OpenRath.Library.Commutation
import OpenRath.Session.Persistence.RoundTrip

/-!
# Rounds of built-in tools

A round of tool calls (`_adispatch_round` of `src/rath/_async/aloop.py`) lets calls with different
resource keys overtake each other. The keys are made of the texts of the arguments. The same file
may have several texts, and commands and code, each with a key of their own, may use any file.

## Main definitions

* `runSerial`: the calls one after the other.
* `Refines`: every round has the workspace and the rows of the calls one after the other.
* `Commute`: two calls may be exchanged.

## Main results

* `refines_iff`: the calls of a class refine the calls one after the other exactly if any two of
  them with different keys commute.
* `commute_of_files`: operations on files that are apart commute.
* `refines_of_files`: rounds of such operations.
-/

namespace OpenRath

open TextFile

section Round

variable (backend : LocalHost) (summarize : FlowToolCall → ToolResult → Except Exn String)

/-- A built-in tool call in a workspace, and the body of its row. -/
def runCall (ws : Workspace) (tc : RathLLMToolCallPart) : Workspace × String :=
  match BuiltinTool.ofName? tc.function.name with
  | none => (ws, missingBody backend.host)
  | some tool =>
    let result := tool.call backend (tc.function.argumentsParsed.getD []) ws
    (result.1, RoundState.toolBody backend.host summarize (tool.flowTool backend) result.2)

/-- The calls one after the other, with the bodies of their rows. -/
def runSerial (ws : Workspace) : List RathLLMToolCallPart → Workspace × List String
  | [] => (ws, [])
  | tc :: calls =>
    match resourceKeyOf backend.host (systemTools backend) tc with
    | .error body => ((runSerial ws calls).1, body :: (runSerial ws calls).2)
    | .ok _ =>
      let result := runCall backend summarize ws tc
      ((runSerial result.1 calls).1, result.2 :: (runSerial result.1 calls).2)

/-- Steps of a round of built-in tools. -/
def RoundStep (calls : List RathLLMToolCallPart) :
    Workspace × RoundState → Workspace × RoundState → Prop :=
  RoundState.Step backend.host (systemTools backend)
    (systemExecutor backend (fun _ _ _ _ => False) summarize) calls

/-- However the queues of a round take turns, the workspace and the rows are those of the calls one
after the other. -/
def Refines (calls : List RathLLMToolCallPart) : Prop :=
  ∀ ws ws' s', Relation.ReflTransGen (RoundStep backend summarize calls)
      (ws, .start backend.host (systemTools backend) calls) (ws', s') → s'.Ended →
    ws' = (runSerial backend summarize ws calls).1 ∧
      feedbackRows calls (s'.finalBodies backend.host) =
        feedbackRows calls (runSerial backend summarize ws calls).2

/-- Two calls may be exchanged. -/
def Commute (a b : RathLLMToolCallPart) : Prop :=
  ∀ ws, let first := runCall backend summarize ws a
    let second := runCall backend summarize ws b
    (runCall backend summarize first.1 b).1 = (runCall backend summarize second.1 a).1 ∧
      first.2 = (runCall backend summarize second.1 a).2 ∧
      (runCall backend summarize first.1 b).2 = second.2

/-! ### The order of the calls -/

variable (calls : List RathLLMToolCallPart)

/-- The key of a call that can be made. -/
def keyAt (idx : ℕ) : Option (List String) :=
  calls[idx]?.bind fun tc => (resourceKeyOf backend.host (systemTools backend) tc).toOption

/-- The call of an index, with the body at its place. -/
def indexStep (s : Workspace × List (Option String)) (idx : ℕ) : Workspace × List (Option String) :=
  match calls[idx]? with
  | none => s
  | some tc =>
    ((runCall backend summarize s.1 tc).1, s.2.set idx (some (runCall backend summarize s.1 tc).2))

/-- The indices of the calls that can be made. -/
def runnable : ℕ → List RathLLMToolCallPart → List ℕ
  | _, [] => []
  | n, tc :: calls =>
    match resourceKeyOf backend.host (systemTools backend) tc with
    | .ok _ => n :: runnable (n + 1) calls
    | .error _ => runnable (n + 1) calls

/-- The queues of a round have the calls that are left, each with those of its key. -/
def Scheduled (rest : List ℕ) (queues : List (List ℕ)) : Prop :=
  ∃ keys : List (List String), keys.Nodup ∧
    queues = keys.map (fun key => rest.filter fun idx => keyAt backend calls idx = some key) ∧
    ∀ idx ∈ rest, ∃ key ∈ keys, keyAt backend calls idx = some key

end Round

section Queues

variable {kf : ℕ → Option (List String)} {key : List String} {idx : ℕ} {done : List ℕ}
  {keys : List (List String)}

theorem filter_append_singleton_of_ne {key' : List String} (hkey : kf idx = some key)
    (hne : key' ≠ key) : (done ++ [idx]).filter (fun j => kf j = some key') =
      done.filter fun j => kf j = some key' := by
  have hidx : ¬ kf idx = some key' := by
    rw [hkey]
    exact fun heq => hne (Option.some_inj.mp heq).symm
  rw [List.filter_append, List.filter_singleton, decide_eq_false hidx]
  exact List.append_nil _

/-- A call comes to the end of the queue of its key. -/
theorem enqueue_of_mem (hkey : kf idx = some key) (hnodup : keys.Nodup) (hmem : key ∈ keys) :
    enqueue key idx (keys.map fun k => (k, done.filter fun j => kf j = some k)) =
      keys.map fun k => (k, (done ++ [idx]).filter fun j => kf j = some k) := by
  induction keys with
  | nil => cases hmem
  | cons key' keys ih =>
    obtain ⟨hnot, hnodup⟩ := List.nodup_cons.mp hnodup
    rw [List.map_cons, List.map_cons, enqueue]
    split_ifs with heq
    · subst heq
      have hrest : ∀ k ∈ keys, (k, done.filter fun j => kf j = some k) =
          (k, (done ++ [idx]).filter fun j => kf j = some k) := by
        intro k hk
        rw [filter_append_singleton_of_ne hkey]
        rintro rfl
        exact hnot hk
      have hself : (done ++ [idx]).filter (fun j => kf j = some key') =
          done.filter (fun j => kf j = some key') ++ [idx] := by
        rw [List.filter_append, List.filter_singleton, decide_eq_true hkey]
        rfl
      rw [List.map_congr_left hrest, hself]
    · rw [filter_append_singleton_of_ne hkey heq,
        ih hnodup ((List.mem_cons.mp hmem).resolve_left (Ne.symm heq))]

/-- A call with a key of its own has a queue of its own. -/
theorem enqueue_of_not_mem (hkey : kf idx = some key) (hmem : key ∉ keys)
    (hdone : done.filter (fun j => kf j = some key) = []) :
    enqueue key idx (keys.map fun k => (k, done.filter fun j => kf j = some k)) =
      (keys ++ [key]).map fun k => (k, (done ++ [idx]).filter fun j => kf j = some k) := by
  have hself : (done ++ [idx]).filter (fun j => kf j = some key) = [idx] := by
    rw [List.filter_append, hdone, List.filter_singleton, decide_eq_true hkey]
    rfl
  induction keys with
  | nil =>
    rw [List.nil_append, List.map_singleton, hself]
    rfl
  | cons key' keys ih =>
    have hne : key' ≠ key := fun heq => hmem (heq ▸ List.mem_cons_self)
    rw [List.map_cons, enqueue, if_neg hne, ih fun h => hmem (List.mem_cons_of_mem _ h),
      List.cons_append, List.map_cons, filter_append_singleton_of_ne hkey hne]

end Queues

section Scheduling

variable {backend : LocalHost} {summarize : FlowToolCall → ToolResult → Except Exn String}
  {calls : List RathLLMToolCallPart}

theorem keyAt_of_getElem? {idx : ℕ} {tc : RathLLMToolCallPart} (h : calls[idx]? = some tc) :
    keyAt backend calls idx =
      (resourceKeyOf backend.host (systemTools backend) tc).toOption := by
  rw [keyAt, h]
  rfl

/-- The queues that a round makes of its calls. -/
theorem exists_keys_queuesOf {before rest : List RathLLMToolCallPart} {done : List ℕ}
    {keys : List (List String)} (hcalls : calls = before ++ rest) (hnodup : keys.Nodup)
    (hdone : ∀ idx ∈ done, ∃ key ∈ keys, keyAt backend calls idx = some key) :
    ∃ keys' : List (List String), keys'.Nodup ∧
      queuesOf backend.host (systemTools backend) before.length rest
          (keys.map fun k => (k, done.filter fun j => keyAt backend calls j = some k)) =
        keys'.map (fun k => (k, (done ++ runnable backend before.length rest).filter fun j =>
          keyAt backend calls j = some k)) ∧
      ∀ idx ∈ done ++ runnable backend before.length rest,
        ∃ key ∈ keys', keyAt backend calls idx = some key := by
  induction rest generalizing before done keys with
  | nil =>
    exact ⟨keys, hnodup, by rw [runnable, List.append_nil]; rfl, by simpa [runnable] using hdone⟩
  | cons tc rest ih =>
    have htc : calls[before.length]? = some tc := by
      rw [hcalls, List.getElem?_append_right (Nat.le_refl _), Nat.sub_self, List.getElem?_cons_zero]
    have hlength : before.length + 1 = (before ++ [tc]).length := by simp
    have hcalls' : calls = (before ++ [tc]) ++ rest := by simpa using hcalls
    have hkeyAt := @keyAt_of_getElem? backend _ _ _ htc
    rw [queuesOf, runnable]
    cases hkey : resourceKeyOf backend.host (systemTools backend) tc with
    | error body =>
      dsimp only
      rw [hlength]
      exact ih hcalls' hnodup hdone
    | ok key =>
      rw [hkey] at hkeyAt
      dsimp only
      rw [← List.singleton_append, ← List.append_assoc, hlength]
      by_cases hmem : key ∈ keys
      · rw [enqueue_of_mem hkeyAt hnodup hmem]
        refine ih hcalls' hnodup fun idx hidx => ?_
        rcases List.mem_append.mp hidx with hidx | hidx
        · exact hdone idx hidx
        · rw [List.mem_singleton.mp hidx]
          exact ⟨key, hmem, hkeyAt⟩
      · have hnone : done.filter (fun j => keyAt backend calls j = some key) = [] := by
          rw [List.filter_eq_nil_iff]
          intro j hj heq
          obtain ⟨key', hkey', hkeyAt'⟩ := hdone j hj
          rw [decide_eq_true_eq, hkeyAt'] at heq
          exact hmem (Option.some_inj.mp heq ▸ hkey')
        rw [enqueue_of_not_mem hkeyAt hmem hnone]
        refine ih hcalls' (List.nodup_append_comm.mpr (List.nodup_cons.mpr ⟨hmem, hnodup⟩))
          fun idx hidx => ?_
        rcases List.mem_append.mp hidx with hidx | hidx
        · obtain ⟨key', hkey', hkeyAt'⟩ := hdone idx hidx
          exact ⟨key', List.mem_append_left _ hkey', hkeyAt'⟩
        · rw [List.mem_singleton.mp hidx]
          exact ⟨key, List.mem_append_right _ List.mem_cons_self, hkeyAt⟩

theorem scheduled_start : Scheduled backend calls (runnable backend 0 calls)
    (RoundState.start backend.host (systemTools backend) calls).queues := by
  obtain ⟨keys, hnodup, hqueues, hkeys⟩ := @exists_keys_queuesOf backend calls [] calls [] [] rfl
    List.nodup_nil (by simp)
  refine ⟨keys, hnodup, ?_, by simpa using hkeys⟩
  rw [RoundState.start]
  refine (congrArg (List.map Prod.snd) hqueues).trans ?_
  rw [List.map_map]
  rfl

/-- The first call of a queue overtakes calls with other keys only. -/
theorem Scheduled.pop {rest : List ℕ} {queues : List (List ℕ)} {i idx : ℕ} {queue : List ℕ}
    (h : Scheduled backend calls rest queues) (hqueue : queues[i]? = some (idx :: queue)) :
    ∃ before after, rest = before ++ idx :: after ∧
      (∀ j ∈ before, keyAt backend calls j ≠ keyAt backend calls idx) ∧
      Scheduled backend calls (before ++ after) (queues.set i queue) := by
  obtain ⟨keys, hnodup, rfl, hkeys⟩ := h
  rw [List.getElem?_map, Option.map_eq_some_iff] at hqueue
  obtain ⟨key, hi, hfilter⟩ := hqueue
  obtain ⟨before, after, rfl, hbefore, hidx, hafter⟩ := List.filter_eq_cons_iff.mp hfilter
  rw [decide_eq_true_eq] at hidx
  refine ⟨before, after, rfl, fun j hj heq => hbefore j hj ?_, keys, hnodup, ?_, fun j hj => ?_⟩
  · rw [heq, hidx, decide_eq_true rfl]
  · refine List.ext_getElem? fun j => ?_
    rw [List.getElem?_set, List.getElem?_map, List.getElem?_map]
    split_ifs with hij hlt
    · subst hij
      have hnone : before.filter (fun j => keyAt backend calls j = some key) = [] :=
        List.filter_eq_nil_iff.mpr hbefore
      rw [hi, Option.map_some, List.filter_append, hnone, hafter]
      rfl
    · subst hij
      rw [List.length_map] at hlt
      exact absurd (List.getElem?_eq_some_iff.mp hi).1 hlt
    · cases hj : keys[j]? with
      | none => rfl
      | some key' =>
        have hne : ¬ keyAt backend calls idx = some key' := by
          rw [hidx]
          intro heq
          rw [Option.some_inj.mp heq] at hi
          have hlt := (List.getElem?_eq_some_iff.mp hi).1
          exact hij ((List.getElem?_inj hlt hnodup).mp (hi.trans hj.symm))
        rw [Option.map_some, Option.map_some, List.filter_append, List.filter_append,
          List.filter_cons_of_neg (by simpa using hne)]
  · refine hkeys j ?_
    rw [List.mem_append, List.mem_cons]
    exact (List.mem_append.mp hj).imp_right Or.inr

/-- A tool call of a round, as the built-in tool answers it. -/
theorem runCall_of_answer {ws ws' : Workspace} {tc : RathLLMToolCallPart} {tool : FlowToolCall}
    {answer : Except Exn ToolResult} (htool : systemTools backend tc.function.name = some tool)
    (hanswer : (systemExecutor backend (fun _ _ _ _ => False) summarize).adispatchTool ws tool
      (tc.function.argumentsParsed.getD []) answer ws') :
    runCall backend summarize ws tc =
      (ws', RoundState.toolBody backend.host summarize tool answer) := by
  obtain ⟨builtin, hname, rfl⟩ := Option.map_eq_some_iff.mp htool
  obtain ⟨builtin', hname', hcall⟩ := hanswer
  have hself : BuiltinTool.ofName? builtin.name = some builtin := by cases builtin <;> decide
  obtain rfl : builtin = builtin' := Option.some_inj.mp (hself.symm.trans hname')
  rw [runCall, hname]
  dsimp only
  rw [hcall]

/-- A round runs its calls in an order in which calls overtake those with other keys only. -/
theorem exists_order {ws ws' : Workspace} {s s' : RoundState} {rest : List ℕ}
    (h : Relation.ReflTransGen (RoundStep backend summarize calls) (ws, s) (ws', s'))
    (hended : s'.Ended) (hscheduled : Scheduled backend calls rest s.queues) :
    ∃ order, Overtakes (keyAt backend calls) rest order ∧
      (ws', s'.bodies) = order.foldl (indexStep backend summarize calls) (ws, s.bodies) := by
  generalize hstart : (ws, s) = start at h
  induction h using Relation.ReflTransGen.head_induction_on generalizing ws s rest with
  | refl =>
    obtain ⟨rfl, rfl⟩ := Prod.mk.inj hstart
    obtain ⟨keys, -, hqueues, hkeys⟩ := hscheduled
    have hrest : rest = [] := by
      refine List.eq_nil_iff_forall_not_mem.mpr fun idx hidx => ?_
      obtain ⟨key, hkey, hkeyAt⟩ := hkeys idx hidx
      have hmem : rest.filter (fun j => keyAt backend calls j = some key) ∈ s.queues := by
        rw [hqueues]
        exact List.mem_map_of_mem hkey
      have hnil := hended _ hmem
      exact List.filter_eq_nil_iff.mp hnil idx hidx (decide_eq_true hkeyAt)
    subst hrest
    exact ⟨[], .nil, rfl⟩
  | head hstep _ ih =>
    subst hstart
    cases hstep with
    | @run _ w _ i idx queue tc tool answer hqueue htc htool hanswer =>
      obtain ⟨before, after, rfl, hbefore, hnext⟩ := hscheduled.pop hqueue
      obtain ⟨order, horder, hfold⟩ := ih hnext rfl
      refine ⟨idx :: order, .cons hbefore horder, ?_⟩
      rw [hfold, List.foldl_cons, indexStep, htc]
      dsimp only
      rw [runCall_of_answer htool hanswer]
      rfl

theorem exists_of_mem_runnable {before rest : List RathLLMToolCallPart} {idx : ℕ}
    (hcalls : calls = before ++ rest) (h : idx ∈ runnable backend before.length rest) :
    ∃ tc key, calls[idx]? = some tc ∧
      resourceKeyOf backend.host (systemTools backend) tc = .ok key := by
  induction rest generalizing before with
  | nil => cases h
  | cons tc rest ih =>
    have hlength : before.length + 1 = (before ++ [tc]).length := by simp
    have hcalls' : calls = (before ++ [tc]) ++ rest := by simpa using hcalls
    rw [runnable] at h
    cases hkey : resourceKeyOf backend.host (systemTools backend) tc with
    | error body =>
      rw [hkey] at h
      dsimp only at h
      rw [hlength] at h
      exact ih hcalls' h
    | ok key =>
      rw [hkey] at h
      rcases List.mem_cons.mp h with rfl | h
      · refine ⟨tc, key, ?_, hkey⟩
        rw [hcalls, List.getElem?_append_right (Nat.le_refl _), Nat.sub_self,
          List.getElem?_cons_zero]
      · rw [hlength] at h
        exact ih hcalls' h

/-- Calls that commute do so at their places. -/
theorem indexStep_comm {i j : ℕ} {a b : RathLLMToolCallPart} (hi : calls[i]? = some a)
    (hj : calls[j]? = some b) (hne : i ≠ j) (hcomm : Commute backend summarize b a)
    (s : Workspace × List (Option String)) :
    indexStep backend summarize calls (indexStep backend summarize calls s j) i =
      indexStep backend summarize calls (indexStep backend summarize calls s i) j := by
  obtain ⟨hws, hb, ha⟩ := hcomm s.1
  simp only [indexStep, hi, hj]
  rw [hws, hb, ha, List.set_comm _ _ hne.symm]

/-- The calls that can be made, one after the other. -/
theorem foldl_runnable {before rest : List RathLLMToolCallPart} {bodies : List (Option String)}
    (hcalls : calls = before ++ rest) (hlength : bodies.length = before.length) (ws : Workspace) :
    (runnable backend before.length rest).foldl (indexStep backend summarize calls)
        (ws, bodies ++ (RoundState.start backend.host (systemTools backend) rest).bodies) =
      ((runSerial backend summarize ws rest).1,
        bodies ++ (runSerial backend summarize ws rest).2.map some) := by
  induction rest generalizing before bodies ws with
  | nil => rfl
  | cons tc rest ih =>
    have htc : calls[before.length]? = some tc := by
      rw [hcalls, List.getElem?_append_right (Nat.le_refl _), Nat.sub_self, List.getElem?_cons_zero]
    have hcalls' : calls = (before ++ [tc]) ++ rest := by simpa using hcalls
    have hsucc : before.length + 1 = (before ++ [tc]).length := by simp
    have hnext (body : String) : (bodies ++ [some body]).length = (before ++ [tc]).length := by
      simp [hlength]
    rw [RoundState.start] at ih ⊢
    rw [runnable, runSerial, List.map_cons]
    cases hkey : resourceKeyOf backend.host (systemTools backend) tc with
    | error body =>
      dsimp only
      rw [hsucc, List.append_cons bodies, ih hcalls' (hnext body), List.map_cons,
        List.append_assoc, List.singleton_append]
    | ok key =>
      dsimp only
      have hset (body : String) (after : List (Option String)) :
          (bodies ++ none :: after).set before.length (some body) =
            (bodies ++ [some body]) ++ after := by
        rw [← hlength, List.set_append_right _ _ (Nat.le_refl _), Nat.sub_self, List.set_cons_zero,
          List.append_cons]
      rw [List.foldl_cons, indexStep, htc]
      dsimp only
      rw [hset, hsucc, ih hcalls' (hnext _), List.map_cons, List.append_assoc,
        List.singleton_append]

/-- Rounds of calls of which any two with different keys commute. -/
theorem refines_of_commute
    (hcomm : ∀ a ∈ calls, ∀ b ∈ calls, ∀ ka kb,
      resourceKeyOf backend.host (systemTools backend) a = .ok ka →
        resourceKeyOf backend.host (systemTools backend) b = .ok kb → ka ≠ kb →
          Commute backend summarize a b) :
    Refines backend summarize calls := by
  intro ws ws' s' h hended
  obtain ⟨order, horder, hfold⟩ := exists_order h hended scheduled_start
  have hserial : (runnable backend 0 calls).foldl (indexStep backend summarize calls)
      (ws, (RoundState.start backend.host (systemTools backend) calls).bodies) =
        ((runSerial backend summarize ws calls).1,
          (runSerial backend summarize ws calls).2.map some) :=
    @foldl_runnable backend summarize calls [] calls [] rfl rfl ws
  have hsteps : ∀ i ∈ runnable backend 0 calls, ∀ j ∈ runnable backend 0 calls,
      keyAt backend calls j ≠ keyAt backend calls i → ∀ s,
        indexStep backend summarize calls (indexStep backend summarize calls s j) i =
          indexStep backend summarize calls (indexStep backend summarize calls s i) j := by
    intro i hi j hj hne s
    obtain ⟨a, ka, ha, hka⟩ := @exists_of_mem_runnable backend calls [] calls i rfl hi
    obtain ⟨b, kb, hb, hkb⟩ := @exists_of_mem_runnable backend calls [] calls j rfl hj
    rw [keyAt_of_getElem? ha, keyAt_of_getElem? hb, hka, hkb] at hne
    refine indexStep_comm ha hb (fun heq => hne ?_)
      (hcomm b (List.mem_of_getElem? hb) a (List.mem_of_getElem? ha) kb ka hkb hka
        fun heq => hne (congrArg some heq)) s
    subst heq
    rw [ha] at hb
    obtain rfl := Option.some_inj.mp hb
    exact (congrArg Except.toOption (hkb.symm.trans hka))
  rw [foldl_eq_of_overtakes horder hsteps, hserial] at hfold
  obtain ⟨hws, hbodies⟩ := Prod.mk.inj hfold
  refine ⟨hws, ?_⟩
  have hmap : (fun body : Option String => body.getD (missingBody backend.host)) ∘ some = id := rfl
  rw [RoundState.finalBodies, hbodies, List.map_map, hmap, List.map_id]

theorem step_of_runCall {ws : Workspace} {s : RoundState} {i idx : ℕ} {queue : List ℕ}
    {tc : RathLLMToolCallPart} {key : List String} (hqueue : s.queues[i]? = some (idx :: queue))
    (htc : calls[idx]? = some tc)
    (hkey : resourceKeyOf backend.host (systemTools backend) tc = .ok key) :
    RoundStep backend summarize calls (ws, s) ((runCall backend summarize ws tc).1,
      ⟨s.queues.set i queue, s.bodies.set idx (some (runCall backend summarize ws tc).2)⟩) := by
  rw [resourceKeyOf] at hkey
  split at hkey
  next args hargs herror =>
    cases hname : BuiltinTool.ofName? tc.function.name with
    | none =>
      rw [systemTools, hname] at hkey
      cases hkey
    | some builtin =>
      have htool : systemTools backend tc.function.name = some (builtin.flowTool backend) := by
        rw [systemTools, hname]
        rfl
      have hself : BuiltinTool.ofName? builtin.name = some builtin := by cases builtin <;> decide
      have hstep := @RoundState.Step.run backend.host (systemTools backend) _ _
        (systemExecutor backend (fun _ _ _ _ => False) summarize) calls ws _ s i idx queue tc _ _
        hqueue htc htool ⟨builtin, hself, rfl⟩
      rw [runCall, hname]
      exact hstep
  next => cases hkey

/-- The rows have the bodies. -/
theorem eq_of_feedbackRows {bodies bodies' : List String} (hlength : bodies.length = calls.length)
    (hlength' : bodies'.length = calls.length)
    (h : feedbackRows calls bodies = feedbackRows calls bodies') : bodies = bodies' := by
  induction calls generalizing bodies bodies' with
  | nil => rw [List.length_eq_zero_iff.mp hlength, List.length_eq_zero_iff.mp hlength']
  | cons tc calls ih =>
    cases bodies with
    | nil => cases hlength
    | cons body bodies =>
      cases bodies' with
      | nil => cases hlength'
      | cons body' bodies' =>
        simp only [List.length_cons, Nat.add_right_cancel_iff] at hlength hlength'
        simp only [feedbackRows, List.zipWith_cons_cons, List.cons.injEq] at h ih
        obtain ⟨hrow, hrows⟩ := h
        rw [ih hlength hlength' hrows]
        simpa [toolFeedbackChunk] using hrow

/-- The second call of a round may come first. -/
theorem commute_of_refines {a b : RathLLMToolCallPart} {ka kb : List String}
    (hka : resourceKeyOf backend.host (systemTools backend) a = .ok ka)
    (hkb : resourceKeyOf backend.host (systemTools backend) b = .ok kb) (hne : ka ≠ kb)
    (h : Refines backend summarize [a, b]) : Commute backend summarize a b := by
  intro ws first second
  have hstart : RoundState.start backend.host (systemTools backend) [a, b] =
      ⟨[[0], [1]], [none, none]⟩ := by
    simp [RoundState.start, queuesOf, enqueue, hka, hkb, hne]
  have hsecond := @step_of_runCall backend summarize [a, b] ws ⟨[[0], [1]], [none, none]⟩
    1 1 [] b kb
    rfl rfl hkb
  have hfirst := @step_of_runCall backend summarize [a, b] second.1
    ⟨[[0], []], [none, some second.2]⟩ 0 0 [] a ka rfl rfl hka
  have hrun : Relation.ReflTransGen (RoundStep backend summarize [a, b])
      (ws, .start backend.host (systemTools backend) [a, b])
      ((runCall backend summarize second.1 a).1,
        ⟨[[], []], [some (runCall backend summarize second.1 a).2, some second.2]⟩) := by
    rw [hstart]
    exact .tail (.single hsecond) hfirst
  obtain ⟨hws, hrows⟩ := h ws _ _ hrun (by simp [RoundState.Ended])
  have hserial : runSerial backend summarize ws [a, b] =
      ((runCall backend summarize first.1 b).1,
        [first.2, (runCall backend summarize first.1 b).2]) := by
    simp only [runSerial, hka, hkb, first]
  rw [hserial] at hws hrows
  have hbodies := eq_of_feedbackRows rfl rfl hrows
  simp only [RoundState.finalBodies, List.map_cons, List.map_nil, Option.getD_some,
    List.cons.injEq, and_true] at hbodies
  exact ⟨hws.symm, hbodies.1.symm, hbodies.2.symm⟩

/-- The calls of a class refine the calls one after the other exactly if any two of them with
different keys commute. -/
theorem refines_iff (backend : LocalHost)
    (summarize : FlowToolCall → ToolResult → Except Exn String) (C : RathLLMToolCallPart → Prop) :
    (∀ calls, (∀ tc ∈ calls, C tc) → Refines backend summarize calls) ↔
      ∀ a b, C a → C b → ∀ ka kb, resourceKeyOf backend.host (systemTools backend) a = .ok ka →
        resourceKeyOf backend.host (systemTools backend) b = .ok kb → ka ≠ kb →
          Commute backend summarize a b := by
  constructor
  · intro h a b ha hb ka kb hka hkb hne
    refine commute_of_refines hka hkb hne (h [a, b] fun tc htc => ?_)
    rcases List.mem_pair.mp htc with rfl | rfl
    · exact ha
    · exact hb
  · intro h calls hcalls
    exact refines_of_commute fun a ha b hb => h a b (hcalls a ha) (hcalls b hb)

end Scheduling

section Files

variable {backend : LocalHost} {summarize : FlowToolCall → ToolResult → Except Exn String}

/-- A call of a file operation on a path. -/
structure FileCall (backend : LocalHost) (tc : RathLLMToolCallPart) (tool : BuiltinTool)
    (p : WorkspacePath) : Prop where
  name_eq : BuiltinTool.ofName? tc.function.name = some tool
  file : tool ≠ .commandRun ∧ tool ≠ .codeRun
  path : (BuiltinTool.argument backend (tc.function.argumentsParsed.getD []) "path" >>=
    backend.resolve) = .ok (.ok p)

namespace FileCall

variable {a b tc : RathLLMToolCallPart} {tool toolA toolB : BuiltinTool} {p q : WorkspacePath}

theorem runCall_eq (h : FileCall backend tc tool p) (ws : Workspace) :
    runCall backend summarize ws tc =
      let result := tool.call backend (tc.function.argumentsParsed.getD []) ws
      (result.1, RoundState.toolBody backend.host summarize (tool.flowTool backend) result.2) := by
  rw [runCall, h.name_eq]

/-- An operation leaves the workspace alone, or it is a write. -/
theorem eq_or_write (h : FileCall backend tc tool p) :
    (∀ ws, (runCall backend summarize ws tc).1 = ws) ∨ tool = .filesWrite ∧ ∃ payload,
      ∀ ws, (runCall backend summarize ws tc).1 = (backend.writeAt ws p payload).1 := by
  have hpath := h.path
  simp only [h.runCall_eq]
  cases tool with
  | commandRun => exact absurd rfl h.file.1
  | codeRun => exact absurd rfl h.file.2
  | filesRead | filesList | filesExists =>
    left
    intro ws
    simp only [BuiltinTool.call, BuiltinTool.atPath, hpath]
  | filesWrite =>
    simp only [BuiltinTool.call, BuiltinTool.atPath, hpath]
    cases BuiltinTool.argument backend (tc.function.argumentsParsed.getD []) "path" >>=
        fun _ => BuiltinTool.contentArgument (tc.function.argumentsParsed.getD []) with
    | error e => exact Or.inl fun ws => rfl
    | ok text => exact Or.inr ⟨trivial, encode text.toList, fun ws => rfl⟩

/-- The row of an operation does not depend on a file that is apart. -/
theorem runCall_insert (h : FileCall backend tc tool q) (hapart : Apart p q) (ws : Workspace)
    (data : List UInt8) : (runCall backend summarize (ws.insert p data) tc).2 =
      (runCall backend summarize ws tc).2 := by
  have hpath := h.path
  simp only [h.runCall_eq]
  cases tool with
  | commandRun => exact absurd rfl h.file.1
  | codeRun => exact absurd rfl h.file.2
  | filesRead =>
    simp only [BuiltinTool.call, BuiltinTool.atPath, hpath, backend.readAt_insert hapart]
  | filesList =>
    simp only [BuiltinTool.call, BuiltinTool.atPath, hpath, backend.listAt_insert hapart]
  | filesExists => simp only [BuiltinTool.call, hpath, LocalHost.existsAt_insert hapart]
  | filesWrite =>
    simp only [BuiltinTool.call, BuiltinTool.atPath, hpath, backend.writeAt_snd,
      backend.writeFailure_insert hapart]
    cases BuiltinTool.argument backend (tc.function.argumentsParsed.getD []) "path" >>=
        fun _ => BuiltinTool.contentArgument (tc.function.argumentsParsed.getD []) <;> rfl

/-- The row of an operation does not depend on one that is apart. -/
theorem runCall_runCall (ha : FileCall backend a toolA p) (hb : FileCall backend b toolB q)
    (h : Apart p q) (ws : Workspace) :
    (runCall backend summarize (runCall backend summarize ws a).1 b).2 =
      (runCall backend summarize ws b).2 := by
  rcases @FileCall.eq_or_write backend summarize _ _ _ ha with hws | ⟨-, payload, hws⟩
  · rw [hws]
  · rw [hws]
    exact backend.eq_of_writeAt (f := fun ws => (runCall backend summarize ws b).2)
      (hb.runCall_insert h) payload

end FileCall

/-- Operations commute if both only read, or if their paths are apart. -/
theorem commute_of_files {a b : RathLLMToolCallPart} {toolA toolB : BuiltinTool}
    {p q : WorkspacePath} (ha : FileCall backend a toolA p) (hb : FileCall backend b toolB q)
    (h : toolA ≠ .filesWrite ∧ toolB ≠ .filesWrite ∨ Apart p q) :
    Commute backend summarize a b := by
  intro ws
  rcases h with ⟨hreadA, hreadB⟩ | hapart
  · have hwsA := (@FileCall.eq_or_write backend summarize _ _ _ ha).resolve_right
      fun hwrite => hreadA hwrite.1
    have hwsB := (@FileCall.eq_or_write backend summarize _ _ _ hb).resolve_right
      fun hwrite => hreadB hwrite.1
    simp only [hwsA, hwsB, and_self]
  · refine ⟨?_, (hb.runCall_runCall ha hapart.symm ws).symm, ha.runCall_runCall hb hapart ws⟩
    rcases @FileCall.eq_or_write backend summarize _ _ _ ha with hwsA | ⟨-, payload, hwsA⟩
    · rw [hwsA, hwsA]
    · rcases @FileCall.eq_or_write backend summarize _ _ _ hb with hwsB | ⟨-, payload', hwsB⟩
      · rw [hwsB, hwsB]
      · rw [hwsA, hwsB, hwsB, hwsA]
        exact backend.writeAt_comm hapart payload payload'

/-- **Rounds of file operations.** If of any two different calls of a round both read, or their
paths are apart, the round ends as if its calls were run one after the other, however the queues are
interleaved. -/
theorem refines_of_files {calls : List RathLLMToolCallPart}
    (h : ∀ a ∈ calls, ∀ b ∈ calls, a ≠ b → ∃ toolA p toolB q,
      FileCall backend a toolA p ∧ FileCall backend b toolB q ∧
        (toolA ≠ .filesWrite ∧ toolB ≠ .filesWrite ∨ Apart p q)) :
    Refines backend summarize calls := by
  refine refines_of_commute fun a ha b hb ka kb hka hkb hne => ?_
  have hab : a ≠ b := by
    rintro rfl
    exact hne (Except.ok.inj (hka.symm.trans hkb))
  obtain ⟨toolA, p, toolB, q, hfileA, hfileB, hcase⟩ := h a ha b hb hab
  exact commute_of_files hfileA hfileB hcase

end Files

section Sample

/-- A workspace in which neither commands nor code do anything. -/
def sampleBackend : LocalHost where
  host := sampleHost
  name := "local"
  root := ["workspace"]
  home _ := none
  readText _ data :=
    match decode data with
    | some text => .ok (String.ofList text)
    | none => .error (.other "UnicodeDecodeError" "")
  shell _ ws := (ws, .ok (.command 0 [] [] 0))
  codeRun _ ws := (ws, .ok (.code [] [] none))

/-- A write of a file. -/
def sampleWrite (id path content : String) : RathLLMToolCallPart where
  id := id
  type := "function"
  function :=
    { name := "write_workspace_file"
      arguments := s!"\x7b\"path\": \"{path}\", \"content\": \"{content}\"\x7d"
      argumentsParsed := some [("path", .str path), ("content", .str content)]
      argumentsParseError := false }

def sampleSummarize (_ : FlowToolCall) : ToolResult → Except Exn String
  | .written count => .ok s!"\x7b\"bytes_written\": {count}\x7d"
  | _ => .ok "null"

theorem fileCall_sampleWrite (id path content : String) {p : WorkspacePath}
    (h : sampleBackend.resolve path = .ok (.ok p)) :
    FileCall sampleBackend (sampleWrite id path content) .filesWrite p where
  name_eq := show BuiltinTool.ofName? "write_workspace_file" = some .filesWrite by decide
  file := by decide
  path := h

/-- Two files are written. -/
theorem sampleWrites_refine :
    Refines sampleBackend sampleSummarize
      [sampleWrite "tc0" "a.txt" "1", sampleWrite "tc1" "b.txt" "2"] := by
  have hfirst := fileCall_sampleWrite "tc0" "a.txt" "1" (p := ["a.txt"]) (by decide)
  have hsecond := fileCall_sampleWrite "tc1" "b.txt" "2" (p := ["b.txt"]) (by decide)
  have hapart : Apart ["a.txt"] ["b.txt"] := ⟨by decide, by decide⟩
  refine refines_of_files fun a ha b hb hab => ?_
  rcases List.mem_pair.mp ha with rfl | rfl <;> rcases List.mem_pair.mp hb with rfl | rfl
  · exact absurd rfl hab
  · exact ⟨_, _, _, _, hfirst, hsecond, Or.inr hapart⟩
  · exact ⟨_, _, _, _, hsecond, hfirst, Or.inr hapart.symm⟩
  · exact absurd rfl hab

/-- Two texts of one path have queues of their own. -/
theorem not_refines : ¬ ∀ calls, Refines sampleBackend sampleSummarize calls := by
  intro h
  have hcomm := @commute_of_refines sampleBackend sampleSummarize
    (sampleWrite "tc0" "a.txt" "1") (sampleWrite "tc1" "./a.txt" "2") ["fs", "a.txt"]
    ["fs", "./a.txt"]
    rfl rfl (by decide) (h _) ∅
  have hlookup := congrArg (Finmap.lookup ["a.txt"]) hcomm.1
  revert hlookup
  decide +kernel

end Sample

end OpenRath
