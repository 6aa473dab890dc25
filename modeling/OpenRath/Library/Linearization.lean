import Mathlib.Data.List.Nodup
import OpenRath.Library.Process

/-!
# Linearizable processes

An object is given by what its operations, executed one at a time, answer and do. A process among
others *implements* an operation (`Proc.Implements`) if at one of its commands the state changes as
the operation changes the object, at its other commands the object stays as it is, and the process
ends with the answer of the operation. All this is seen through a *view* of the state as an object.

The runs of a pool of processes that implement operations are linearizable: they are runs of the
object, with the operations in the order in which they take effect. Each operation takes effect
between the first and the last command of its process, so that an operation that has been answered
precedes those that have not begun.

## Main definitions

* `Executes`: operations one after the other.
* `Proc.Implements`, `Proc.Settled`: a process before and after its effect.
* `Linearization`: an order of the operations that explains the state and the answers of a pool.

## Main results

* `Proc.implements_call_effect`, `Proc.settled_call`: the rules.
* `Pool.exists_linearization`: runs are linearizable, along every schedule.
-/

namespace OpenRath

variable {C : Type} {A : C → Type} {ε α ι σ τ O B : Type}

/-- The operations with the numbers in `order` are executed one after the other, with the answers in
`order`, and take the object from `t` to `t'`. -/
def Executes (apply : O → τ → B × τ) (ops : List O) (t : τ) : List (ℕ × B) → τ → Prop
  | [], t' => t' = t
  | (j, b) :: order, t' =>
    ∃ o, ops[j]? = some o ∧ (apply o t).1 = b ∧ Executes apply ops (apply o t).2 order t'

/-- A further operation at the end. -/
theorem Executes.concat {apply : O → τ → B × τ} {ops : List O} {t t' : τ} {order : List (ℕ × B)}
    (h : Executes apply ops t order t') {j : ℕ} {o : O} (hj : ops[j]? = some o) :
    Executes apply ops t (order ++ [(j, (apply o t').1)]) (apply o t').2 := by
  induction order generalizing t with
  | nil =>
    cases h
    exact ⟨o, hj, rfl, rfl⟩
  | cons e order ih =>
    obtain ⟨o', hj', hanswer, hrest⟩ := h
    exact ⟨o', hj', hanswer, ih hrest⟩

namespace Proc

/-- What the process has ended with. -/
def outcome? : Proc C A ε α → Option (Except ε α)
  | ret a => some (.ok a)
  | throw e => some (.error e)
  | _ => none

section Implements

variable (exec : (c : C) → ι → σ → A c × σ) (R : σ → σ → Prop) (E : C → σ → Prop)
  (view : σ → τ) (apply : O → τ → B × τ) (Answers : Except ε α → B → Prop)

/-- Whatever the others do, the process leaves the object alone and ends with the answer `b`. -/
def Settled (b : B) : Proc C A ε α → σ → Prop
  | ret a, _ => Answers (.ok a) b
  | throw e, _ => Answers (.error e) b
  | stop, _ => True
  | call c k, s => ∀ s₁, R s s₁ → E c s₁ → ∀ i, R s₁ (exec c i s₁).2 ∧
      view (exec c i s₁).2 = view s₁ ∧ Settled b (k (exec c i s₁).1) (exec c i s₁).2

/-- Whatever the others do, the process is going to execute the operation once, at one of its
commands, and to end with its answer. -/
def Implements (o : O) : Proc C A ε α → σ → Prop
  | ret _, _ | throw _, _ => False
  | stop, _ => True
  | call c k, s => ∀ s₁, R s s₁ → E c s₁ → ∀ i, R s₁ (exec c i s₁).2 ∧
      (view (exec c i s₁).2 = view s₁ ∧ Implements o (k (exec c i s₁).1) (exec c i s₁).2 ∨
        view (exec c i s₁).2 = (apply o (view s₁)).2 ∧
          (k (exec c i s₁).1).Settled exec R E view Answers (apply o (view s₁)).1 (exec c i s₁).2)

variable {exec R E view apply Answers} {p : Proc C A ε α} {s s' : σ} {o : O} {b : B}

/-- A settled process stays so under the interference. -/
theorem Settled.mono (htrans : ∀ a b c, R a b → R b c → R a c)
    (h : p.Settled exec R E view Answers b s) (hs : R s s') :
    p.Settled exec R E view Answers b s' := by
  cases p with
  | ret | throw => exact h
  | stop => trivial
  | call c k => exact fun s₁ hs₁ => h s₁ (htrans _ _ _ hs hs₁)

/-- A process implements its operation under the interference. -/
theorem Implements.mono (htrans : ∀ a b c, R a b → R b c → R a c)
    (h : p.Implements exec R E view apply Answers o s) (hs : R s s') :
    p.Implements exec R E view apply Answers o s' := by
  cases p with
  | ret | throw => exact h
  | stop => trivial
  | call c k => exact fun s₁ hs₁ => h s₁ (htrans _ _ _ hs hs₁)

/-- A command that reads. -/
theorem settled_call {c : C} {k : A c → Proc C A ε α}
    (h : ∀ s₁, R s s₁ → E c s₁ → ∀ i, R s₁ (exec c i s₁).2 ∧ view (exec c i s₁).2 = view s₁ ∧
      (k (exec c i s₁).1).Settled exec R E view Answers b (exec c i s₁).2) :
    (call c k).Settled exec R E view Answers b s := h

/-- A command by which the operation takes effect. -/
theorem implements_call_effect {c : C} {k : A c → Proc C A ε α}
    (h : ∀ s₁, R s s₁ → E c s₁ → ∀ i, R s₁ (exec c i s₁).2 ∧
      view (exec c i s₁).2 = (apply o (view s₁)).2 ∧
      (k (exec c i s₁).1).Settled exec R E view Answers (apply o (view s₁)).1 (exec c i s₁).2) :
    (call c k).Implements exec R E view apply Answers o s := by
  intro s₁ hs₁ hE i
  obtain ⟨hR, heffect, hsettled⟩ := h s₁ hs₁ hE i
  exact ⟨hR, .inr ⟨heffect, hsettled⟩⟩

end Implements

end Proc

/-! ### Pools -/

namespace Pool

theorem along_append {exec : (c : C) → ι → σ → A c × σ} {P : Pool C A ε α σ → ℕ × ι → Prop}
    {x : Pool C A ε α σ} {past future : List (ℕ × ι)} :
    x.Along exec P (past ++ future) ↔
      x.Along exec P past ∧ (x.run exec past).Along exec P future := by
  induction past generalizing x with
  | nil => exact (iff_of_eq (true_and _)).symm
  | cons l past ih => exact (and_congr_right fun _ => ih).trans and_assoc.symm

/-- What the process with a number has ended with. -/
def outcome? (x : Pool C A ε α σ) (j : ℕ) : Option (Except ε α) := x.procs[j]?.bind Proc.outcome?

variable (exec : (c : C) → ι → σ → A c × σ) (R : σ → σ → Prop) (E : C → σ → Prop)
  (view : σ → τ) (apply : O → τ → B × τ) (Answers : Except ε α → B → Prop)

/-- The operations in `order` have taken effect, and the others not yet. -/
structure Underway (ops : List O) (t : τ) (order : List (ℕ × B)) (x : Pool C A ε α σ) : Prop where
  length : x.procs.length = ops.length
  executes : Executes apply ops t order (view x.state)
  nodup : (order.map Prod.fst).Nodup
  settled : ∀ j b p, (j, b) ∈ order → x.procs[j]? = some p →
    p.Settled exec R E view Answers b x.state
  implements : ∀ j o p, j ∉ order.map Prod.fst → ops[j]? = some o → x.procs[j]? = some p →
    p.Implements exec R E view apply Answers o x.state

/-- An order of operations, executed one at a time, that ends with the state of a pool and explains
all its answers. -/
structure Linearization (view : σ → τ) (apply : O → τ → B × τ) (Answers : Except ε α → B → Prop)
    (ops : List O) (t : τ) (order : List (ℕ × B)) (x : Pool C A ε α σ) : Prop where
  executes : Executes apply ops t order (view x.state)
  /-- No operation is executed twice. -/
  nodup : (order.map Prod.fst).Nodup
  /-- Every process that has ended gives the answer of its operation. -/
  answers : ∀ j r, x.outcome? j = some r → ∃ b, (j, b) ∈ order ∧ Answers r b

variable {exec R E view apply Answers} {ops : List O} {t : τ} {order : List (ℕ × B)}
  {x : Pool C A ε α σ}

/-- A process that has ended has had its effect. -/
theorem Underway.linearization (h : Underway exec R E view apply Answers ops t order x) :
    Linearization view apply Answers ops t order x := by
  refine ⟨h.executes, h.nodup, fun j r hr => ?_⟩
  obtain ⟨p, hp, hr⟩ := Option.bind_eq_some_iff.mp hr
  by_cases hj : j ∈ order.map Prod.fst
  · obtain ⟨⟨j', b⟩, hmem, rfl⟩ := List.mem_map.mp hj
    refine ⟨b, hmem, ?_⟩
    have hsettled := h.settled j' b p hmem hp
    cases p with
    | ret | throw =>
      cases hr
      exact hsettled
    | stop | call => cases hr
  · have hlt : j < ops.length := h.length ▸ (List.getElem?_eq_some_iff.mp hp).1
    have himplements := h.implements j _ p hj (List.getElem?_eq_getElem hlt) hp
    cases p with
    | ret | throw => exact himplements.elim
    | stop | call => cases hr

section Run

variable (hrefl : ∀ s, R s s) (htrans : ∀ a b c, R a b → R b c → R a c)
include htrans

/-- The command of a process that leaves the object alone, or by which its operation
takes effect. -/
theorem Underway.call (h : Underway exec R E view apply Answers ops t order x) {j : ℕ} {c : C}
    {k : A c → Proc C A ε α} (hp : x.procs[j]? = some (.call c k)) (hE : E c x.state) (i : ι)
    (hrefl : R x.state x.state) :
    ∃ more, Underway exec R E view apply Answers ops t (order ++ more)
      ⟨(exec c i x.state).2, x.procs.set j (k (exec c i x.state).1)⟩ ∧
      ∀ e ∈ more, e.1 = j := by
  have hlt : j < ops.length := h.length ▸ (List.getElem?_eq_some_iff.mp hp).1
  have hops : ops[j]? = some ops[j] := List.getElem?_eq_getElem hlt
  have hlength : (x.procs.set j (k (exec c i x.state).1)).length = ops.length := by
    rw [List.length_set, h.length]
  -- The process that has been replaced, and the other ones.
  have hcases : ∀ (l : ℕ) q, (x.procs.set j (k (exec c i x.state).1))[l]? = some q →
      l = j ∧ q = k (exec c i x.state).1 ∨ l ≠ j ∧ x.procs[l]? = some q := by
    intro l q hq
    by_cases hl : l = j
    · subst hl
      rw [List.getElem?_set_self (List.getElem?_eq_some_iff.mp hp).1] at hq
      exact .inl ⟨rfl, (Option.some.inj hq).symm⟩
    · rw [List.getElem?_set_ne (Ne.symm hl)] at hq
      exact .inr ⟨hl, hq⟩
  by_cases hj : j ∈ order.map Prod.fst
  · obtain ⟨⟨j', b⟩, hmem, rfl⟩ := List.mem_map.mp hj
    obtain ⟨hR, hview, hnext⟩ := h.settled _ b _ hmem hp x.state hrefl hE i
    refine ⟨[], ?_, by simp⟩
    rw [List.append_nil]
    refine ⟨hlength, hview.symm ▸ h.executes, h.nodup, fun l b' q hl hq => ?_,
      fun l o q hl ho hq => ?_⟩
    · obtain ⟨rfl, rfl⟩ | ⟨-, hq⟩ := hcases l q hq
      · have hb : (l, b') = (l, b) := List.inj_on_of_nodup_map h.nodup hl hmem rfl
        cases hb
        exact hnext
      · exact (h.settled l b' q hl hq).mono htrans hR
    · obtain ⟨rfl, -⟩ | ⟨-, hq⟩ := hcases l q hq
      · exact absurd hj hl
      · exact (h.implements l o q hl ho hq).mono htrans hR
  · obtain ⟨hR, ⟨hview, hnext⟩ | ⟨heffect, hnext⟩⟩ :=
      h.implements j _ _ hj hops hp x.state hrefl hE i
    · refine ⟨[], ?_, by simp⟩
      rw [List.append_nil]
      refine ⟨hlength, hview.symm ▸ h.executes, h.nodup, fun l b' q hl hq => ?_,
        fun l o q hl ho hq => ?_⟩
      · obtain ⟨rfl, -⟩ | ⟨-, hq⟩ := hcases l q hq
        · exact absurd (List.mem_map_of_mem hl) hj
        · exact (h.settled l b' q hl hq).mono htrans hR
      · obtain ⟨rfl, rfl⟩ | ⟨-, hq⟩ := hcases l q hq
        · cases hops.symm.trans ho
          exact hnext
        · exact (h.implements l o q hl ho hq).mono htrans hR
    · refine ⟨[(j, (apply ops[j] (view x.state)).1)], ?_, by simp⟩
      refine ⟨hlength, heffect.symm ▸ h.executes.concat hops, ?_, fun l b' q hl hq => ?_,
        fun l o q hl ho hq => ?_⟩
      · rw [List.map_append]
        exact h.nodup.append (List.nodup_singleton _) (by simpa using hj)
      · obtain ⟨rfl, rfl⟩ | ⟨hne, hq⟩ := hcases l q hq
        · rcases List.mem_append.mp hl with hl | hl
          · exact absurd (List.mem_map_of_mem hl) hj
          · cases List.mem_singleton.mp hl
            exact hnext
        · have hl : (l, b') ∈ order := by simpa [hne] using hl
          exact (h.settled l b' q hl hq).mono htrans hR
      · obtain ⟨rfl, -⟩ | ⟨-, hq⟩ := hcases l q hq
        · exact absurd (by simp) hl
        · have hl : l ∉ order.map Prod.fst := fun hmem => hl (by simp [hmem])
          exact (h.implements l o q hl ho hq).mono htrans hR

include hrefl

/-- A step of a pool. -/
theorem Underway.step (h : Underway exec R E view apply Answers ops t order x) {l : ℕ × ι}
    (hE : Expected E x l) :
    ∃ more, Underway exec R E view apply Answers ops t (order ++ more) (x.step exec l) ∧
      ∀ e ∈ more, e.1 = l.1 := by
  have hsame (hstep : x.step exec l = x) : ∃ more, Underway exec R E view apply Answers ops t
      (order ++ more) (x.step exec l) ∧ ∀ e ∈ more, e.1 = l.1 :=
    ⟨[], by rwa [hstep, List.append_nil], by simp⟩
  rcases hp : x.procs[l.1]? with _ | p
  · exact hsame (step_of_none hp)
  cases p with
  | ret | throw | stop =>
    obtain ⟨hlt, hget⟩ := List.getElem?_eq_some_iff.mp hp
    refine hsame ?_
    rw [step_of_getElem? hp]
    exact congrArg (Pool.mk x.state) (by rw [Proc.next, ← hget, List.set_getElem_self]; simp)
  | call c k =>
    rw [step_of_getElem? hp]
    exact h.call htrans hp (hE c (by rw [command?, hp]; exact rfl)) l.2 (hrefl _)

/-- A run of a pool, along which more operations take effect, of processes that are scheduled. -/
theorem Underway.run (h : Underway exec R E view apply Answers ops t order x)
    {schedule : List (ℕ × ι)} (hE : x.Along exec (Expected E) schedule) :
    ∃ more, Underway exec R E view apply Answers ops t (order ++ more) (x.run exec schedule) ∧
      ∀ e ∈ more, e.1 ∈ schedule.map Prod.fst := by
  induction schedule generalizing x order with
  | nil => exact ⟨[], by rwa [List.append_nil], by simp⟩
  | cons l ls ih =>
    obtain ⟨more, hstep, hmore⟩ := h.step hrefl htrans hE.1
    obtain ⟨more', hrun, hmore'⟩ := ih hstep hE.2
    refine ⟨more ++ more', by rwa [← List.append_assoc], fun e he => ?_⟩
    rcases List.mem_append.mp he with he | he
    · exact List.mem_cons.mpr (.inl (hmore e he))
    · exact List.mem_cons_of_mem _ (hmore' e he)

/-- **Linearizability.** A run of processes that implement operations has a linearization, in which
all operations in the linearization of a first part of the run precede all others; these are of
processes that are scheduled in that part. -/
theorem exists_linearization (hlength : x.procs.length = ops.length)
    (h : ∀ (j : ℕ) o p, ops[j]? = some o → x.procs[j]? = some p →
      p.Implements exec R E view apply Answers o x.state) {past future : List (ℕ × ι)}
    (hE : x.Along exec (Expected E) (past ++ future)) :
    ∃ order more, Linearization view apply Answers ops (view x.state) order (x.run exec past) ∧
      Linearization view apply Answers ops (view x.state) (order ++ more)
        (x.run exec (past ++ future)) ∧
      ∀ e ∈ order, e.1 ∈ past.map Prod.fst := by
  have hstart : Underway exec R E view apply Answers ops (view x.state) [] x :=
    ⟨hlength, rfl, List.nodup_nil, by simp, fun j o p _ => h j o p⟩
  obtain ⟨hpast, hfuture⟩ := along_append.mp hE
  obtain ⟨order, horder, hscheduled⟩ := hstart.run hrefl htrans hpast
  obtain ⟨more, hmore, -⟩ := horder.run hrefl htrans hfuture
  rw [List.nil_append] at horder hmore
  exact ⟨order, more, horder.linearization, run_append x past future ▸ hmore.linearization,
    hscheduled⟩

end Run

end Pool

end OpenRath
