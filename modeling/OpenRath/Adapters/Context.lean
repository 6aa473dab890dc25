import OpenRath.Security.Policy

/-!
# The context of an adapter

Every call of an external adapter is given a context with the limits that it has to keep to
(`src/rath/adapters/context.py`): the limits that the caller has declared, merged with those that
the policy has decided.

An absent limit does not restrict anything, nor does an empty set of hosts or an empty name of a
root. So the merge of two sets of hosts that have none in common restricts nothing. Of two roots the
decided one is taken, wherever it lies.

## Main definitions

* `AdapterRequestContext`, `withPolicyConstraints`.
* `mergePolicyConstraints`: the merge.
* `Request`, `PolicyConstraints.Admits`: what constraints admit.
* `PolicyConstraints.Compatible`: constraints that can be merged.

## Main results

* `exists_merge`: the merge succeeds; what it consists of.
* `merge_not_weaker_iff`: the merge weakens neither side if and only if they are compatible.
-/

namespace OpenRath

/-- The context that is handed to an adapter. -/
structure AdapterRequestContext (l : Lower) where
  runId : UUID
  nodeId : String
  tenantId : String
  deadline : Option Datetime
  traceContext : TraceContext
  idempotencyKey : Option String
  policyConstraints : PolicyConstraints l
  checkpointSequence : Option ℤ
  nodeId_not_blank : isBlank nodeId = false
  tenantId_not_blank : isBlank tenantId = false
  deadline_aware : ∀ d ∈ deadline, d.Aware
  checkpointSequence_pos : ∀ n ∈ checkpointSequence, 1 ≤ n

variable {l : Lower}

/-- `a or b` of two optional names: an empty name counts as none. -/
def orName (a b : Option String) : Option String := if a.getD "" = "" then b else a

/-- The hosts that the merge allows. -/
def mergedHosts (declared decided : Finset String) : Finset String :=
  if declared ≠ ∅ ∧ decided ≠ ∅ then declared ∩ decided
  else if declared ≠ ∅ then declared
  else decided

/-- `merge_policy_constraints`. -/
def mergePolicyConstraints (declared decided : PolicyConstraints l) :
    Except StoreError (PolicyConstraints l) :=
  let timeouts := declared.timeoutSeconds.toList ++ decided.timeoutSeconds.toList
  let outputLimits := declared.maxOutputBytes.toList ++ decided.maxOutputBytes.toList
  PolicyConstraints.create (minimum Seconds.rank timeouts) (minimum some outputLimits)
    (mergedHosts declared.allowedNetworkHosts decided.allowedNetworkHosts)
    (orName decided.filesystemRoot declared.filesystemRoot)
    (declared.readOnly || decided.readOnly) (declared.redactions ∪ decided.redactions)

/-- `with_policy_constraints`. -/
def withPolicyConstraints (context : AdapterRequestContext l) (constraints : PolicyConstraints l) :
    Except StoreError (AdapterRequestContext l) :=
  (mergePolicyConstraints context.policyConstraints constraints).map fun merged =>
    { context with policyConstraints := merged }

/-! ### The merge -/

/-- `merged` is made of two sides by the rules of the merge. -/
structure IsMerge (declared decided merged : PolicyConstraints l) : Prop where
  timeoutSeconds : merged.timeoutSeconds = minimum Seconds.rank
    (declared.timeoutSeconds.toList ++ decided.timeoutSeconds.toList)
  maxOutputBytes : merged.maxOutputBytes = minimum some
    (declared.maxOutputBytes.toList ++ decided.maxOutputBytes.toList)
  allowedNetworkHosts : merged.allowedNetworkHosts =
    mergedHosts declared.allowedNetworkHosts decided.allowedNetworkHosts
  filesystemRoot : merged.filesystemRoot = orName decided.filesystemRoot declared.filesystemRoot
  readOnly : merged.readOnly = (declared.readOnly || decided.readOnly)
  redactions : merged.redactions = declared.redactions ∪ decided.redactions

section Hosts

variable {declared decided : Finset String} {host : String}

theorem mem_or_mem_of_mergedHosts (h : host ∈ mergedHosts declared decided) :
    host ∈ declared ∨ host ∈ decided := by
  rw [mergedHosts] at h
  split_ifs at h
  · exact .inl (Finset.mem_inter.mp h).1
  · exact .inl h
  · exact .inr h

/-- Hosts that are allowed by both sides, unless one of them does not restrict them. -/
theorem mergedHosts_of_ne_empty (h : declared ≠ ∅) (h' : decided ≠ ∅) :
    mergedHosts declared decided = declared ∩ decided :=
  if_pos ⟨h, h'⟩

/-- If some host is allowed by both sides, what the merge allows both of them do. -/
theorem allowed_of_mergedHosts
    (hboth : declared ≠ ∅ → decided ≠ ∅ → declared ∩ decided ≠ ∅)
    (h : mergedHosts declared decided = ∅ ∨ host ∈ mergedHosts declared decided) :
    (declared = ∅ ∨ host ∈ declared) ∧ (decided = ∅ ∨ host ∈ decided) := by
  by_cases hdeclared : declared = ∅
  · have hmerged : mergedHosts declared decided = decided := by
      rw [mergedHosts, if_neg fun h => h.1 hdeclared, if_neg fun h => h hdeclared]
    exact ⟨.inl hdeclared, hmerged ▸ h⟩
  by_cases hdecided : decided = ∅
  · have hmerged : mergedHosts declared decided = declared := by
      rw [mergedHosts, if_neg fun h => h.2 hdecided, if_pos hdeclared]
    exact ⟨hmerged ▸ h, .inl hdecided⟩
  · rw [mergedHosts_of_ne_empty hdeclared hdecided] at h
    obtain ⟨hl, hr⟩ := Finset.mem_inter.mp (h.resolve_left (hboth hdeclared hdecided))
    exact ⟨.inr hl, .inr hr⟩

end Hosts

theorem mem_toList_append {α : Type} {a : α} {x y : Option α} :
    a ∈ x.toList ++ y.toList ↔ a ∈ x ∨ a ∈ y := by
  rw [List.mem_append, Option.mem_toList, Option.mem_toList, Option.mem_def, Option.mem_def]

/-- Merging does not fail, whatever the two sides are. -/
theorem exists_merge (declared decided : PolicyConstraints l) :
    ∃ merged, mergePolicyConstraints declared decided = .ok merged ∧
      IsMerge declared decided merged := by
  have htimeout : ∀ t ∈ minimum Seconds.rank
      (declared.timeoutSeconds.toList ++ decided.timeoutSeconds.toList), t.nonpos = false := by
    intro t ht
    exact (mem_toList_append.mp (mem_of_minimum ht)).elim (declared.timeoutSeconds_pos t)
      (decided.timeoutSeconds_pos t)
  have houtput : ∀ n ∈ minimum some
      (declared.maxOutputBytes.toList ++ decided.maxOutputBytes.toList), 0 < n := by
    intro n hn
    exact (mem_toList_append.mp (mem_of_minimum hn)).elim (declared.maxOutputBytes_pos n)
      (decided.maxOutputBytes_pos n)
  rw [mergePolicyConstraints, PolicyConstraints.create, dif_pos htimeout, dif_pos houtput]
  refine ⟨_, rfl, rfl, rfl, PolicyConstraints.image_lower fun host hhost => ?_, rfl, rfl, rfl⟩
  rcases mem_or_mem_of_mergedHosts hhost with h | h
  · exact declared.allowedNetworkHosts_lower host h
  · exact decided.allowedNetworkHosts_lower host h

/-- The rules of the merge determine it. -/
theorem IsMerge.unique {declared decided merged merged' : PolicyConstraints l}
    (h : IsMerge declared decided merged) (h' : IsMerge declared decided merged') :
    merged = merged' := by
  ext1
  · rw [h.timeoutSeconds, h'.timeoutSeconds]
  · rw [h.maxOutputBytes, h'.maxOutputBytes]
  · rw [h.allowedNetworkHosts, h'.allowedNetworkHosts]
  · rw [h.filesystemRoot, h'.filesystemRoot]
  · rw [h.readOnly, h'.readOnly]
  · rw [h.redactions, h'.redactions]

/-- The context with the evaluated constraints is the context with the merge. -/
theorem withPolicyConstraints_eq_ok_iff {context context' : AdapterRequestContext l}
    {decided : PolicyConstraints l} : withPolicyConstraints context decided = .ok context' ↔
      IsMerge context.policyConstraints decided context'.policyConstraints ∧
        context' = { context with policyConstraints := context'.policyConstraints } := by
  obtain ⟨merged, hmerged, h⟩ := exists_merge context.policyConstraints decided
  rw [withPolicyConstraints, hmerged]
  constructor
  · intro hcontext
    cases hcontext
    exact ⟨h, rfl⟩
  · rintro ⟨h', hcontext⟩
    rw [hcontext, h.unique h']
    rfl

/-! ### What constraints admit -/

/-- Something that an adapter does under constraints. -/
structure Request where
  host : String
  path : String
  write : Bool
  duration : Seconds
  outputSize : ℕ

namespace PolicyConstraints

/-- The root that is there and not empty. -/
def root? (c : PolicyConstraints l) : Option String :=
  c.filesystemRoot.filter fun root => root ≠ ""

/-- Constraints admit a request. A path is resolved into its parts; it lies under a root if it
begins with the parts of the root. -/
structure Admits (resolve : String → List String) (c : PolicyConstraints l) (r : Request) :
    Prop where
  host : c.allowedNetworkHosts = ∅ ∨ l.lower r.host ∈ c.allowedNetworkHosts
  path : ∀ root ∈ c.root?, resolve root <+: resolve r.path
  write : c.readOnly = true → r.write = false
  duration : ∀ t ∈ c.timeoutSeconds, less Seconds.rank t r.duration = false
  outputSize : ∀ n ∈ c.maxOutputBytes, (r.outputSize : ℤ) ≤ n

/-- The declared and the decided constraints can be merged: hosts that are allowed by both, if both
restrict them; a decided root under the declared one; and, if the declared timeout is not a number,
a decided one that does not restrict anything either. -/
structure Compatible (resolve : String → List String) (declared decided : PolicyConstraints l) :
    Prop where
  hosts : declared.allowedNetworkHosts ≠ ∅ → decided.allowedNetworkHosts ≠ ∅ →
    declared.allowedNetworkHosts ∩ decided.allowedNetworkHosts ≠ ∅
  roots : ∀ root ∈ declared.root?, ∀ root' ∈ decided.root?, resolve root <+: resolve root'
  timeouts : declared.timeoutSeconds = some .nan →
    ∀ t ∈ decided.timeoutSeconds, t = .nan ∨ t = .inf

variable {resolve : String → List String} {c declared decided merged : PolicyConstraints l}

/-- A request without a duration, an output or a change is admitted where its host and its path
are. -/
theorem admits_of_host_path {host path : String}
    (hhost : c.allowedNetworkHosts = ∅ ∨ l.lower host ∈ c.allowedNetworkHosts)
    (hpath : ∀ root ∈ c.root?, resolve root <+: resolve path) {duration : Seconds}
    (hduration : ∀ t ∈ c.timeoutSeconds, less Seconds.rank t duration = false) :
    c.Admits resolve ⟨host, path, false, duration, 0⟩ where
  host := hhost
  path := hpath
  write _ := rfl
  duration := hduration
  outputSize n hn := Int.le_of_lt (c.maxOutputBytes_pos n hn)

theorem exists_host (c : PolicyConstraints l) :
    ∃ host, c.allowedNetworkHosts = ∅ ∨ l.lower host ∈ c.allowedNetworkHosts := by
  rcases c.allowedNetworkHosts.eq_empty_or_nonempty with hempty | ⟨host, hhost⟩
  · exact ⟨"", .inl hempty⟩
  · refine ⟨host, .inr ?_⟩
    rwa [c.allowedNetworkHosts_lower host hhost]

theorem exists_path (resolve : String → List String) (c : PolicyConstraints l) :
    ∃ path, ∀ root ∈ c.root?, resolve root <+: resolve path := by
  rcases hroot : c.root? with _ | root
  · exact ⟨"", fun _ h => by cases h⟩
  · exact ⟨root, fun _ h => by cases h; exact List.prefix_refl _⟩

theorem root?_merge (h : IsMerge declared decided merged) :
    merged.root? = decided.root?.or declared.root? := by
  rw [root?, root?, root?, h.filesystemRoot, orName]
  rcases decided.filesystemRoot with _ | root
  · simp
  · by_cases hroot : root = "" <;> simp [hroot, Option.filter]

/-- What does not exceed the smaller of two limits exceeds neither, if the first one is
comparable. -/
theorem not_less_of_minimum {α L : Type} [LinearOrder L] {rank : α → Option L} {x y : Option α}
    (hx : ∀ a ∈ x, (rank a).isSome) {b : α}
    (h : ∀ m ∈ minimum rank (x.toList ++ y.toList), less rank m b = false) :
    (∀ a ∈ x, less rank a b = false) ∧ ∀ a ∈ y, less rank a b = false := by
  rcases x with _ | a
  · refine ⟨fun _ hc => ?_, fun c hc => h c ?_⟩
    · cases hc
    · cases hc
      rfl
  · have hnone : ∀ c ∈ a :: y.toList, less rank c b = false := by
      intro c hc
      have hm := h _ rfl
      rw [← Bool.not_eq_true] at hm ⊢
      exact fun hless => hm ((less_minimum_iff (hx a rfl) rfl).mpr ⟨c, hc, hless⟩)
    refine ⟨fun c hc => ?_, fun c hc => ?_⟩
    · cases hc
      exact hnone a List.mem_cons_self
    · exact hnone c (List.mem_cons_of_mem a (Option.mem_toList.mpr hc))

/-- A limit on the output is comparable with every size. -/
theorem less_some_eq_false_iff {m n : ℤ} : less some m n = false ↔ n ≤ m := by
  simp [less]

theorem duration_of_merge (h : IsMerge declared decided merged) {s : Seconds}
    (hnan : declared.timeoutSeconds = some .nan → ∀ t ∈ decided.timeoutSeconds, t = .nan ∨ t = .inf)
    (hs : ∀ t ∈ merged.timeoutSeconds, less Seconds.rank t s = false) :
    (∀ t ∈ declared.timeoutSeconds, less Seconds.rank t s = false) ∧
      ∀ t ∈ decided.timeoutSeconds, less Seconds.rank t s = false := by
  by_cases hdeclared : declared.timeoutSeconds = some .nan
  · refine ⟨fun t ht => ?_, fun t ht => ?_⟩
    · cases hdeclared.symm.trans ht
      exact (less_of_rank_none rfl s).1
    · rcases hnan hdeclared t ht with rfl | rfl
      · exact (less_of_rank_none rfl s).1
      · cases s <;> simp [less, Seconds.rank]
  · refine not_less_of_minimum (fun t ht => ?_) (fun t ht => hs t (h.timeoutSeconds ▸ ht))
    rw [Option.isSome_iff_ne_none, ne_eq, Seconds.rank_eq_none_iff]
    rintro rfl
    exact hdeclared ht

/-- What the merge of compatible constraints admits, both sides admit. -/
theorem Compatible.admits (hcompatible : Compatible resolve declared decided)
    (h : IsMerge declared decided merged) {r : Request} (hr : merged.Admits resolve r) :
    declared.Admits resolve r ∧ decided.Admits resolve r := by
  have hduration := duration_of_merge h hcompatible.timeouts hr.duration
  have houtput : (∀ n ∈ declared.maxOutputBytes, less some n (r.outputSize : ℤ) = false) ∧
      ∀ n ∈ decided.maxOutputBytes, less some n (r.outputSize : ℤ) = false := by
    refine not_less_of_minimum (fun _ _ => rfl) fun n hn => ?_
    exact less_some_eq_false_iff.mpr (hr.outputSize n (h.maxOutputBytes ▸ hn))
  have hhost := hr.host
  have hpath := hr.path
  have hwrite := hr.write
  rw [h.allowedNetworkHosts] at hhost
  rw [root?_merge h] at hpath
  rw [h.readOnly, Bool.or_eq_true] at hwrite
  have hhosts := allowed_of_mergedHosts hcompatible.hosts hhost
  constructor
  · refine ⟨hhosts.1, fun root hroot => ?_, fun hro => hwrite (.inl hro), hduration.1,
      fun n hn => less_some_eq_false_iff.mp (houtput.1 n hn)⟩
    -- The path lies under the decided root, if there is one, and this one under the declared.
    rcases hroot' : decided.root? with _ | root'
    · exact hpath root (by rw [hroot', Option.none_or]; exact hroot)
    · have hunder := hcompatible.roots root hroot root' hroot'
      exact hunder.trans (hpath root' (by rw [hroot', Option.some_or]; rfl))
  · refine ⟨hhosts.2, fun root hroot => ?_, fun hro => hwrite (.inr hro), hduration.2,
      fun n hn => less_some_eq_false_iff.mp (houtput.2 n hn)⟩
    exact hpath root (by rw [Option.mem_def.mp hroot, Option.some_or]; rfl)

/-- Constraints are compatible if both sides admit what the merge admits. -/
theorem compatible_of_admits (h : IsMerge declared decided merged)
    (hadmits : ∀ r, merged.Admits resolve r →
      declared.Admits resolve r ∧ decided.Admits resolve r) :
    Compatible resolve declared decided := by
  obtain ⟨host, hhost⟩ := merged.exists_host
  obtain ⟨path, hpath⟩ := merged.exists_path resolve
  have hduration : ∀ t ∈ merged.timeoutSeconds, less Seconds.rank t .negInf = false :=
    fun t _ => t.less_negInf
  refine ⟨fun hdeclared hdecided hinter => ?_, fun root hroot root' hroot' => ?_,
    fun hnan t ht => ?_⟩
  · -- A host of the decided ones: as no host is allowed by both, the merge admits all of them.
    obtain ⟨other, hother⟩ := Finset.nonempty_iff_ne_empty.mpr hdecided
    have hall : merged.allowedNetworkHosts = ∅ := by
      rw [h.allowedNetworkHosts, mergedHosts_of_ne_empty hdeclared hdecided, hinter]
    have hr := (hadmits ⟨other, _, false, _, 0⟩ (admits_of_host_path (.inl hall) hpath hduration)).1
    have hmem := hr.host.resolve_left hdeclared
    rw [decided.allowedNetworkHosts_lower other hother] at hmem
    exact Finset.notMem_empty other (hinter ▸ Finset.mem_inter.mpr ⟨hmem, hother⟩)
  · -- The decided root itself.
    have hmerged : merged.root? = some root' := by
      rw [root?_merge h, Option.mem_def.mp hroot', Option.some_or]
    have hself : ∀ r ∈ merged.root?, resolve r <+: resolve root' := by
      intro r hr
      cases hmerged.symm.trans hr
      exact List.prefix_refl _
    exact (hadmits _ (admits_of_host_path hhost hself hduration)).1.path root hroot
  · -- A duration without an end.
    have hmerged : merged.timeoutSeconds = some .nan := by
      rw [h.timeoutSeconds, hnan]
      exact minimum_of_rank_none rfl
    have hinf : ∀ t ∈ merged.timeoutSeconds, less Seconds.rank t .inf = false := by
      intro t ht
      cases hmerged.symm.trans ht
      rfl
    have hr := (hadmits _ (admits_of_host_path hhost hpath hinf)).2
    exact Seconds.less_inf_eq_false_iff.mp (hr.duration t ht)

end PolicyConstraints

/-- **Merging.** The merge of two constraints admits nothing that one of them does not admit, and
has the redactions of both, if and only if they are compatible. -/
theorem merge_not_weaker_iff (resolve : String → List String)
    (declared decided : PolicyConstraints l) :
    (∃ merged, mergePolicyConstraints declared decided = .ok merged ∧
      (∀ r, merged.Admits resolve r → declared.Admits resolve r ∧ decided.Admits resolve r) ∧
      declared.redactions ∪ decided.redactions ⊆ merged.redactions) ↔
    declared.Compatible resolve decided := by
  obtain ⟨merged, hmerged, h⟩ := exists_merge declared decided
  constructor
  · rintro ⟨merged', hmerged', hadmits, -⟩
    cases hmerged.symm.trans hmerged'
    exact PolicyConstraints.compatible_of_admits h hadmits
  · intro hcompatible
    exact ⟨merged, hmerged, fun r hr => hcompatible.admits h hr, h.redactions ▸ subset_rfl⟩

namespace Sample

/-- Lower case of texts of letters without accents. -/
def lower : Lower where
  lower s := String.ofList (s.toList.map Char.toLower)
  lower_lower := map_toLower_map_toLower

/-- Constraints that allow the host of a text and nothing else. -/
def onlyHost (host : String) : PolicyConstraints lower where
  timeoutSeconds := none
  maxOutputBytes := none
  allowedNetworkHosts := {lower.lower host}
  filesystemRoot := none
  readOnly := false
  redactions := ∅
  timeoutSeconds_pos _ h := by cases h
  maxOutputBytes_pos _ h := by cases h
  allowedNetworkHosts_lower h hh := by
    rw [Finset.mem_singleton.mp hh]
    exact lower.lower_lower host

end Sample

/-- The merge of constraints that allow different hosts admits a third one. -/
theorem merge_weaker :
    ∃ merged, mergePolicyConstraints (Sample.onlyHost "a.example") (Sample.onlyHost "b.example") =
        .ok merged ∧
      merged.Admits (fun path => [path]) ⟨"c.example", "/", true, .finite 1, 1⟩ ∧
      ¬ (Sample.onlyHost "a.example").Admits (fun path => [path])
        ⟨"c.example", "/", true, .finite 1, 1⟩ := by
  obtain ⟨merged, hmerged, h⟩ :=
    exists_merge (Sample.onlyHost "a.example") (Sample.onlyHost "b.example")
  have hhosts : merged.allowedNetworkHosts = ∅ := by
    rw [h.allowedNetworkHosts]
    decide
  have htimeout : merged.timeoutSeconds = none := h.timeoutSeconds
  have houtput : merged.maxOutputBytes = none := h.maxOutputBytes
  have hroot : merged.root? = none := PolicyConstraints.root?_merge h
  refine ⟨merged, hmerged, ⟨.inl hhosts, ?_, ?_, ?_, ?_⟩, fun hadmits => ?_⟩
  · simp only [hroot, Option.mem_def, reduceCtorEq, false_imp_iff, implies_true]
  · simp only [h.readOnly, Sample.onlyHost, Bool.or_self, Bool.false_eq_true, false_imp_iff]
  · simp only [htimeout, Option.mem_def, reduceCtorEq, false_imp_iff, implies_true]
  · simp only [houtput, Option.mem_def, reduceCtorEq, false_imp_iff, implies_true]
  · have hhost := hadmits.host
    revert hhost
    decide

end OpenRath
