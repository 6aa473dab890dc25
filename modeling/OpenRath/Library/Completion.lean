import OpenRath.Library.Process

/-!
# Complete executions of a process

A process among others is executed to its end: before each of its commands, and at its end, the
others change the state within an interference `R`. The trace of an execution is the list of the
commands of the process, with their answers.

## Main definitions

* `Proc.Completes`: complete executions.
* `Proc.complete`: the execution of a process alone, with the same input for every command.
* `Proc.Ends`: a process alone comes to an end, whatever the inputs are, under a condition.

## Main results

* `Proc.Completes.of_bind`, `Proc.Completes.of_attempt_bind`: the parts of the execution of a
  composition.
* `Proc.Issues.of_mem_trace`: the commands in a trace are those that a process issues.
* `Proc.completes_complete`, `Proc.exists_answer_of_mem_complete`: the execution of a process alone
  is one of its executions, with the answers at its input.
* `Proc.Ends.bind`, `Proc.Ends.attempt_bind`, `Proc.ends_ofExcept`, `Proc.ends_ite`: the rules.
-/

namespace OpenRath

namespace Proc

variable {C : Type} {A : C → Type} {ε ε' α β ι σ : Type}

/-- The process `p` ends in the state `s'` with the result `r`, after the commands of the trace. -/
inductive Completes (exec : (c : C) → ι → σ → A c × σ) (R : σ → σ → Prop) :
    Proc C A ε α → σ → List ((c : C) × A c) → Except ε α → σ → Prop
  | ret {a : α} {s s' : σ} (hR : R s s') : Completes exec R (.ret a) s [] (.ok a) s'
  | throw {e : ε} {s s' : σ} (hR : R s s') : Completes exec R (.throw e) s [] (.error e) s'
  | call {c : C} {k : A c → Proc C A ε α} {s s₁ s' : σ} {trace : List ((c : C) × A c)}
      {r : Except ε α} (i : ι) (hR : R s s₁)
      (h : Completes exec R (k (exec c i s₁).1) (exec c i s₁).2 trace r s') :
      Completes exec R (.call c k) s (⟨c, (exec c i s₁).1⟩ :: trace) r s'

section Completes

variable {exec : (c : C) → ι → σ → A c × σ} {R : σ → σ → Prop} {s s' : σ}
  {trace : List ((c : C) × A c)}

/-- The parts of the execution of a sequential composition. -/
theorem Completes.of_bind (hrefl : ∀ s, R s s) {p : Proc C A ε α} {f : α → Proc C A ε β}
    {r : Except ε β} (h : (p >>= f).Completes exec R s trace r s') :
    (∃ a s₁ past rest, p.Completes exec R s past (.ok a) s₁ ∧
      (f a).Completes exec R s₁ rest r s' ∧ trace = past ++ rest) ∨
    ∃ e, p.Completes exec R s trace (.error e) s' ∧ r = .error e := by
  induction p generalizing s trace with
  | ret a => exact Or.inl ⟨a, s, [], trace, .ret (hrefl s), h, rfl⟩
  | throw e =>
    cases h with
    | throw hR => exact Or.inr ⟨e, .throw hR, rfl⟩
  | stop => cases h
  | call c k ih =>
    cases h with
    | call i hR h =>
      rcases ih _ h with ⟨a, s₁, past, rest, hpast, hrest, rfl⟩ | ⟨e, he, rfl⟩
      · exact Or.inl ⟨a, s₁, _, rest, .call i hR hpast, hrest, rfl⟩
      · exact Or.inr ⟨e, .call i hR he, rfl⟩

theorem Completes.of_ofExcept {x r : Except ε α} (h : (ofExcept x).Completes exec R s trace r s') :
    trace = [] ∧ r = x ∧ R s s' := by
  rcases x with e | a
  · cases h with
    | throw hR => exact ⟨rfl, rfl, hR⟩
  · cases h with
    | ret hR => exact ⟨rfl, rfl, hR⟩

/-- A sequential composition that returns. -/
theorem Completes.exists_of_bind (hrefl : ∀ s, R s s) {p : Proc C A ε α} {f : α → Proc C A ε β}
    {b : β} (h : (p >>= f).Completes exec R s trace (.ok b) s') :
    ∃ a s₁ past rest, p.Completes exec R s past (.ok a) s₁ ∧
      (f a).Completes exec R s₁ rest (.ok b) s' := by
  rcases h.of_bind hrefl with ⟨a, s₁, past, rest, hp, hrest, -⟩ | ⟨e, -, he⟩
  · exact ⟨a, s₁, past, rest, hp, hrest⟩
  · cases he

theorem Completes.exists_of_ofExcept_bind {x : Except ε α} {f : α → Proc C A ε β} {b : β}
    (h : (ofExcept x >>= f).Completes exec R s trace (.ok b) s') :
    ∃ a, x = .ok a ∧ (f a).Completes exec R s trace (.ok b) s' := by
  rcases x with e | a
  · cases h
  · exact ⟨a, rfl, h⟩

theorem Completes.of_throwUnless {c : Prop} [Decidable c] {e : ε} {r : Except ε Unit}
    (h : (throwUnless c e).Completes exec R s trace r s') :
    trace = [] ∧ (c ∧ r = .ok () ∨ ¬ c ∧ r = .error e) ∧ R s s' := by
  by_cases hc : c
  · rw [throwUnless, if_pos hc] at h
    cases h with
    | ret hR => exact ⟨rfl, Or.inl ⟨hc, rfl⟩, hR⟩
  · rw [throwUnless, if_neg hc] at h
    cases h with
    | throw hR => exact ⟨rfl, Or.inr ⟨hc, rfl⟩, hR⟩

/-- The parts of the execution of a process whose errors are results, and of what follows it. -/
theorem Completes.of_attempt_bind {p : Proc C A ε α} {f : Except ε α → Proc C A ε' β}
    {r : Except ε' β} (hrefl : ∀ s, R s s) (h : (p.attempt >>= f).Completes exec R s trace r s') :
    ∃ x s₁ past rest, p.Completes exec R s past x s₁ ∧ (f x).Completes exec R s₁ rest r s' ∧
      trace = past ++ rest := by
  induction p generalizing s trace with
  | ret a => exact ⟨.ok a, s, [], trace, .ret (hrefl s), h, rfl⟩
  | throw e => exact ⟨.error e, s, [], trace, .throw (hrefl s), h, rfl⟩
  | stop => cases h
  | call c k ih =>
    cases h with
    | call i hR h =>
      obtain ⟨x, s₁, past, rest, hpast, hrest, rfl⟩ := ih _ h
      exact ⟨x, s₁, _, rest, .call i hR hpast, hrest, rfl⟩

/-- The commands in a trace satisfy what all commands of the process satisfy. -/
theorem Issues.of_mem_trace {P : C → Prop} {p : Proc C A ε α} {r : Except ε α} (hp : p.Issues P)
    (h : p.Completes exec R s trace r s') : ∀ e ∈ trace, P e.1 := by
  induction h with
  | ret | throw =>
    intro e he
    cases he
  | call i hR _ ih =>
    intro e he
    rcases List.mem_cons.mp he with rfl | he
    · exact hp.1
    · exact ih (hp.2 _) e he

end Completes

/-! ### A process alone -/

/-- The execution of a process alone with one input: the trace, the result, and the state. -/
def complete (exec : (c : C) → ι → σ → A c × σ) (i : ι) :
    Proc C A ε α → σ → List ((c : C) × A c) × Option (Except ε α) × σ
  | ret a, s => ([], some (.ok a), s)
  | throw e, s => ([], some (.error e), s)
  | stop, s => ([], none, s)
  | call c k, s =>
    let out := complete exec i (k (exec c i s).1) (exec c i s).2
    (⟨c, (exec c i s).1⟩ :: out.1, out.2)

theorem completes_complete {exec : (c : C) → ι → σ → A c × σ} {R : σ → σ → Prop}
    (hrefl : ∀ s, R s s) {i : ι} {p : Proc C A ε α} {s : σ} {r : Except ε α}
    (h : (p.complete exec i s).2.1 = some r) :
    p.Completes exec R s (p.complete exec i s).1 r (p.complete exec i s).2.2 := by
  induction p generalizing s with
  | ret a =>
    cases h
    exact .ret (hrefl s)
  | throw e =>
    cases h
    exact .throw (hrefl s)
  | stop => cases h
  | call c k ih => exact .call i (hrefl s) (ih _ h)

/-- The answers in the trace of a process alone are those at its input. -/
theorem exists_answer_of_mem_complete {exec : (c : C) → ι → σ → A c × σ} {i : ι}
    {p : Proc C A ε α} {s : σ} {e : (c : C) × A c} (he : e ∈ (p.complete exec i s).1) :
    ∃ s₁, e.2 = (exec e.1 i s₁).1 := by
  induction p generalizing s with
  | ret | throw | stop => cases he
  | call c k ih =>
    rcases List.mem_cons.mp he with rfl | he
    · exact ⟨s, rfl⟩
    · exact ih _ he

/-! ### The end of a process alone -/

section Ends

variable (exec : (c : C) → ι → σ → A c × σ)

/-- A process alone, whatever the inputs of its commands are, ends with a result and in a state
that satisfy `Q`. -/
def Ends (Q : Except ε α → σ → Prop) : Proc C A ε α → σ → Prop
  | ret a, s => Q (.ok a) s
  | throw e, s => Q (.error e) s
  | stop, _ => False
  | call c k, s => ∀ i, Ends Q (k (exec c i s).1) (exec c i s).2

variable {exec} {Q : Except ε α → σ → Prop} {p : Proc C A ε α} {s : σ}

theorem ends_ofExcept {x : Except ε α} (h : Q x s) : (ofExcept x).Ends exec Q s := by
  cases x <;> exact h

theorem ends_ite {c : Prop} [Decidable c] {q : Proc C A ε α} (hp : c → p.Ends exec Q s)
    (hq : ¬ c → q.Ends exec Q s) : (if c then p else q).Ends exec Q s := by
  split_ifs with hc
  · exact hp hc
  · exact hq hc

/-- Sequential composition. -/
theorem Ends.bind {f : α → Proc C A ε β} {Q' : Except ε β → σ → Prop} (h : p.Ends exec Q s)
    (hf : ∀ a s, Q (.ok a) s → (f a).Ends exec Q' s)
    (herror : ∀ e s, Q (.error e) s → Q' (.error e) s) : (p >>= f).Ends exec Q' s := by
  induction p generalizing s with
  | ret a => exact hf a s h
  | throw e => exact herror e s h
  | stop => exact h.elim
  | call c k ih => exact fun i => ih _ (h i)

theorem ends_ofExcept_bind {x : Except ε α} {f : α → Proc C A ε β} {Q' : Except ε β → σ → Prop}
    {a : α} (hx : x = .ok a) (h : (f a).Ends exec Q' s) : (ofExcept x >>= f).Ends exec Q' s := by
  rw [hx]
  exact h

/-- A process whose errors are results, and what follows it. -/
theorem Ends.attempt_bind {f : Except ε α → Proc C A ε' β} {Q' : Except ε' β → σ → Prop}
    (h : p.Ends exec Q s) (hf : ∀ r s, Q r s → (f r).Ends exec Q' s) :
    (p.attempt >>= f).Ends exec Q' s := by
  induction p generalizing s with
  | ret a => exact hf _ s h
  | throw e => exact hf _ s h
  | stop => exact h.elim
  | call c k ih => exact fun i => ih _ (h i)

end Ends

end Proc

end OpenRath
