import Mathlib.Data.List.Induction
import Mathlib.Data.Nat.Notation
import Mathlib.Tactic.SplitIfs

/-!
# Processes on a shared state

A process is a program that issues atomic commands on a shared state: it has returned, it has
raised an error, it goes no further, or it waits for the answer of a command (`Proc`). A program
with an unbounded loop is a family of processes, indexed by the number of iterations after which
it goes no further; as a process that is not scheduled any more has crashed, every finite execution
of the program is one of a member of the family.

Processes run side by side in a pool, one command at a time, in the order of a schedule
(`Pool.run`). What a command does may depend on an input that the schedule supplies, such as a
reading of the clock.

The logic is that of rely and guarantee. The process `p` is *safe* in a state (`Proc.Safe`) when
every command it issues, after any interference `R`, keeps the invariant `I` and stays within `R`,
and when it returns or raises with the postcondition. A pool of safe processes keeps the
invariant.

## Main definitions

* `Proc`, `Proc.bind`, `Proc.attempt`, `Proc.perform`, `Proc.interpret`: processes.
* `Proc.next`, `Pool`, `Pool.step`, `Pool.run`: execution.
* `Proc.Issues`: a condition on all commands of a process.
* `Proc.Safe`: safety under interference.
* `Proc.Closed`: properties that the constructs of programs hand on.

## Main results

* `Proc.Safe.mono`, `Proc.Safe.remember`, `Proc.Safe.bind`, `Proc.Safe.attempt_bind`,
  `Proc.safe_call`, `Proc.closed_safe`: the rules.
* `Proc.Safe.next`: a command of a safe process.
* `Pool.safe_run`: a pool of safe processes keeps the invariant.
* `Pool.exists_step_of_run`: the step at which a condition comes to hold.
* `Pool.exists_last_command`: the last command of a process.
* `Pool.safe_run_of_rely`: a safe process among others that stay within the interference.
-/

namespace OpenRath

/-- A process with commands `C`, whose answers are in `A`, that raises `ε` and returns `α`. -/
inductive Proc (C : Type) (A : C → Type) (ε α : Type) : Type
  | ret (a : α)
  | throw (e : ε)
  /-- The process goes no further. -/
  | stop
  | call (c : C) (k : A c → Proc C A ε α)

namespace Proc

variable {C : Type} {A : C → Type} {ε ε' α β ι σ : Type}

/-! ### Programs -/

/-- Sequential composition. -/
def bind (p : Proc C A ε α) (f : α → Proc C A ε β) : Proc C A ε β :=
  match p with
  | ret a => f a
  | throw e => throw e
  | stop => stop
  | call c k => call c fun r => (k r).bind f

instance : Monad (Proc C A ε) where
  pure := ret
  bind := bind

/-- A program whose errors are results. -/
def attempt (p : Proc C A ε α) : Proc C A ε' (Except ε α) :=
  match p with
  | ret a => ret (.ok a)
  | throw e => ret (.error e)
  | stop => stop
  | call c k => call c fun r => (k r).attempt

/-- A program whose commands are programs. -/
def interpret {C' : Type} {A' : C' → Type} (f : (c : C) → Proc C' A' ε' (A c)) (g : ε → ε')
    (p : Proc C A ε α) : Proc C' A' ε' α :=
  match p with
  | ret a => ret a
  | throw e => throw (g e)
  | stop => stop
  | call c k => (f c).bind fun r => (k r).interpret f g

/-- A single command. -/
def perform (c : C) : Proc C A ε (A c) := call c ret

/-- A value, or an error that is raised. -/
def ofExcept : Except ε α → Proc C A ε α
  | .ok a => ret a
  | .error e => throw e

/-- Raise an error unless a condition holds. -/
def throwUnless (c : Prop) [Decidable c] (e : ε) : Proc C A ε Unit :=
  if c then ret () else throw e

theorem bind_eq (p : Proc C A ε α) (f : α → Proc C A ε β) : p >>= f = p.bind f := rfl

@[simp] theorem ret_bind (a : α) (f : α → Proc C A ε β) : (ret a).bind f = f a := rfl

@[simp] theorem call_bind (c : C) (k : A c → Proc C A ε α) (f : α → Proc C A ε β) :
    (call c k).bind f = call c fun r => (k r).bind f := rfl

/-! ### Commands of a process -/

/-- All commands that a process can issue satisfy a condition. -/
def Issues (P : C → Prop) : Proc C A ε α → Prop
  | ret _ | throw _ | stop => True
  | call c k => P c ∧ ∀ r, (k r).Issues P

section Issues

variable {P P' : C → Prop}

theorem Issues.imp {p : Proc C A ε α} (h : p.Issues P) (hP : ∀ c, P c → P' c) : p.Issues P' := by
  induction p with
  | ret | throw | stop => trivial
  | call c k ih => exact ⟨hP c h.1, fun r => ih r (h.2 r)⟩

theorem Issues.bind {p : Proc C A ε α} {f : α → Proc C A ε β} (h : p.Issues P)
    (hf : ∀ a, (f a).Issues P) : (p >>= f).Issues P := by
  induction p with
  | ret a => exact hf a
  | throw | stop => trivial
  | call c k ih => exact ⟨h.1, fun r => ih r (h.2 r)⟩

theorem Issues.attempt {p : Proc C A ε α} (h : p.Issues P) :
    (p.attempt : Proc C A ε' (Except ε α)).Issues P := by
  induction p with
  | ret | throw | stop => trivial
  | call c k ih => exact ⟨h.1, fun r => ih r (h.2 r)⟩

/-- The first part of a program issues its commands. -/
theorem Issues.of_bind {p : Proc C A ε α} {f : α → Proc C A ε β} (h : (p >>= f).Issues P) :
    p.Issues P := by
  induction p with
  | ret | throw | stop => trivial
  | call c k ih => exact ⟨h.1, fun r => ih r (h.2 r)⟩

theorem Issues.of_attempt {p : Proc C A ε α}
    (h : (p.attempt : Proc C A ε' (Except ε α)).Issues P) : p.Issues P := by
  induction p with
  | ret | throw | stop => trivial
  | call c k ih => exact ⟨h.1, fun r => ih r (h.2 r)⟩

theorem issues_perform {c : C} (h : P c) : (perform c : Proc C A ε (A c)).Issues P :=
  ⟨h, fun _ => trivial⟩

end Issues

/-! ### Properties of programs -/

/-- A property that the constructs of programs hand on from their parts. -/
structure Closed (G : (ε α : Type) → Proc C A ε α → Prop) : Prop where
  ret : ∀ {ε α : Type} (a : α), G ε α (ret a)
  throw : ∀ {ε α : Type} (e : ε), G ε α (throw e)
  stop : ∀ {ε α : Type}, G ε α stop
  bind : ∀ {ε α β : Type} {p : Proc C A ε α} {f : α → Proc C A ε β}, G ε α p →
    (∀ a, G ε β (f a)) → G ε β (p >>= f)
  attempt : ∀ {ε ε' α : Type} {p : Proc C A ε α}, G ε α p → G ε' (Except ε α) p.attempt

namespace Closed

variable {G : (ε α : Type) → Proc C A ε α → Prop} (hG : Closed G)
include hG

theorem ofExcept (x : Except ε α) : G ε α (ofExcept x) := by
  rcases x with e | a
  · exact hG.throw e
  · exact hG.ret a

omit hG in
theorem ite (_ : Closed G) {c : Prop} [Decidable c] {p q : Proc C A ε α} (hp : G ε α p)
    (hq : G ε α q) : G ε α (if c then p else q) := by
  split_ifs
  · exact hp
  · exact hq

omit hG in
theorem dite (_ : Closed G) {c : Prop} [Decidable c] {p : c → Proc C A ε α} {q : ¬ c → Proc C A ε α}
    (hp : ∀ h, G ε α (p h)) (hq : ∀ h, G ε α (q h)) : G ε α (if h : c then p h else q h) := by
  split_ifs with h
  · exact hp h
  · exact hq h

theorem throwUnless (c : Prop) [Decidable c] (e : ε) : G ε Unit (throwUnless c e) :=
  hG.ite (hG.ret ()) (hG.throw e)

theorem interpret {C' : Type} {A' : C' → Type} {f : (c : C') → Proc C A ε' (A' c)}
    {g : ε → ε'} (hf : ∀ c, G ε' (A' c) (f c)) (p : Proc C' A' ε α) :
    G ε' α (p.interpret f g) := by
  induction p with
  | ret a => exact hG.ret a
  | throw e => exact hG.throw (g e)
  | stop => exact hG.stop
  | call c k ih => exact hG.bind (hf c) ih

end Closed

theorem closed_issues (P : C → Prop) : Closed fun _ _ (p : Proc C A _ _) => p.Issues P where
  ret _ := trivial
  throw _ := trivial
  stop := trivial
  bind := Issues.bind
  attempt := Issues.attempt

/-! ### Execution -/

/-- The next command of a process, with its effect on the state. -/
def next (exec : (c : C) → ι → σ → A c × σ) (p : Proc C A ε α) (i : ι) (s : σ) :
    Proc C A ε α × σ :=
  match p with
  | call c k => (k (exec c i s).1, (exec c i s).2)
  | p => (p, s)

/-- The command that a process is about to issue. -/
def command? : Proc C A ε α → Option C
  | call c _ => some c
  | _ => none

theorem Issues.next {P : C → Prop} {exec : (c : C) → ι → σ → A c × σ} {p : Proc C A ε α}
    (h : p.Issues P) (i : ι) (s : σ) : (p.next exec i s).1.Issues P := by
  cases p with
  | ret | throw | stop => trivial
  | call c k => exact h.2 _

/-- The value that a process has returned. -/
def result? : Proc C A ε α → Option α
  | ret a => some a
  | _ => none

theorem eq_ret_of_result? {p : Proc C A ε α} {a : α} (h : p.result? = some a) : p = ret a := by
  cases p with
  | ret b =>
    cases h
    rfl
  | throw | stop | call => cases h

/-! ### Safety -/

section Safe

variable (exec : (c : C) → ι → σ → A c × σ) (I : σ → Prop) (R : σ → σ → Prop)
  (E : C → σ → Prop)

/-- After any interference `R` from the state, every command of the process that is expected (`E`)
keeps the invariant `I` and stays within `R`; the process returns and raises with the
postcondition. -/
def Safe (Q : Except ε α → σ → Prop) : Proc C A ε α → σ → Prop
  | ret a, s => Q (.ok a) s
  | throw e, s => Q (.error e) s
  | stop, _ => True
  | call c k, s => ∀ s₁, R s s₁ → I s₁ → E c s₁ → ∀ i, I (exec c i s₁).2 ∧
      R s₁ (exec c i s₁).2 ∧ Safe Q (k (exec c i s₁).1) (exec c i s₁).2

variable {exec I R E} {Q Q' : Except ε α → σ → Prop} {p : Proc C A ε α} {s s' : σ}

/-- Safety is stable under the interference. -/
theorem Safe.mono (hR : ∀ a b c, R a b → R b c → R a c)
    (hQ : ∀ r s s', Q r s → R s s' → Q r s') (h : p.Safe exec I R E Q s) (hs : R s s') :
    p.Safe exec I R E Q s' := by
  cases p with
  | ret a => exact hQ _ _ _ h hs
  | throw e => exact hQ _ _ _ h hs
  | stop => trivial
  | call c k => exact fun s₁ hs₁ => h s₁ (hR _ _ _ hs hs₁)

theorem Safe.imp (h : p.Safe exec I R E Q s) (hQ : ∀ r s, Q r s → Q' r s) :
    p.Safe exec I R E Q' s := by
  induction p generalizing s with
  | ret a => exact hQ _ _ h
  | throw e => exact hQ _ _ h
  | stop => trivial
  | call c k ih =>
    intro s₁ hs₁ hI hE i
    obtain ⟨h₁, h₂, h₃⟩ := h s₁ hs₁ hI hE i
    exact ⟨h₁, h₂, ih _ h₃⟩

/-- At the end of a safe process, the state has changed within the interference. -/
theorem Safe.remember (hrefl : ∀ s, R s s) (htrans : ∀ a b c, R a b → R b c → R a c)
    (h : p.Safe exec I R E Q s) : p.Safe exec I R E (fun r s' => R s s' ∧ Q r s') s := by
  suffices H : ∀ s₀, R s₀ s → p.Safe exec I R E (fun r s' => R s₀ s' ∧ Q r s') s from
    H s (hrefl s)
  intro s₀ hs₀
  induction p generalizing s with
  | ret a => exact ⟨hs₀, h⟩
  | throw e => exact ⟨hs₀, h⟩
  | stop => trivial
  | call c k ih =>
    intro s₁ hs₁ hI hE i
    obtain ⟨h₁, h₂, h₃⟩ := h s₁ hs₁ hI hE i
    exact ⟨h₁, h₂, ih _ h₃ (htrans _ _ _ (htrans _ _ _ hs₀ hs₁) h₂)⟩

theorem safe_call {c : C} {k : A c → Proc C A ε α}
    (h : ∀ s₁, R s s₁ → I s₁ → E c s₁ → ∀ i, I (exec c i s₁).2 ∧ R s₁ (exec c i s₁).2 ∧
      (k (exec c i s₁).1).Safe exec I R E Q (exec c i s₁).2) :
    (call c k).Safe exec I R E Q s := h

theorem safe_ofExcept {x : Except ε α} (h : Q x s) : (ofExcept x).Safe exec I R E Q s := by
  cases x <;> exact h

theorem safe_ite {c : Prop} [Decidable c] {q : Proc C A ε α} (hp : c → p.Safe exec I R E Q s)
    (hq : ¬ c → q.Safe exec I R E Q s) : (if c then p else q).Safe exec I R E Q s := by
  split_ifs with hc
  · exact hp hc
  · exact hq hc

theorem safe_dite {c : Prop} [Decidable c] {p : c → Proc C A ε α} {q : ¬ c → Proc C A ε α}
    (hp : ∀ h, (p h).Safe exec I R E Q s) (hq : ∀ h, (q h).Safe exec I R E Q s) :
    (if h : c then p h else q h).Safe exec I R E Q s := by
  split_ifs with h
  · exact hp h
  · exact hq h

theorem safe_throwUnless {c : Prop} [Decidable c] {e : ε} {Q : Except ε Unit → σ → Prop}
    (h : c → Q (.ok ()) s) (h' : ¬ c → Q (.error e) s) :
    (throwUnless c e).Safe exec I R E Q s :=
  safe_ite h h'

/-- Sequential composition, with a condition on the results of the first part. -/
theorem Safe.bind {f : α → Proc C A ε β} {Q' : Except ε β → σ → Prop}
    (h : p.Safe exec I R E Q s) (hf : ∀ a s, Q (.ok a) s → (f a).Safe exec I R E Q' s)
    (herror : ∀ e s, Q (.error e) s → Q' (.error e) s) : (p >>= f).Safe exec I R E Q' s := by
  induction p generalizing s with
  | ret a => exact hf a s h
  | throw e => exact herror e s h
  | stop => trivial
  | call c k ih =>
    intro s₁ hs₁ hI hE i
    obtain ⟨h₁, h₂, h₃⟩ := h s₁ hs₁ hI hE i
    exact ⟨h₁, h₂, ih _ h₃⟩

theorem Safe.attempt (h : p.Safe exec I R E Q s) :
    (p.attempt : Proc C A ε' (Except ε α)).Safe exec I R E
      (fun r s => ∃ x, r = .ok x ∧ Q x s) s := by
  induction p generalizing s with
  | ret a => exact ⟨_, rfl, h⟩
  | throw e => exact ⟨_, rfl, h⟩
  | stop => trivial
  | call c k ih =>
    intro s₁ hs₁ hI hE i
    obtain ⟨h₁, h₂, h₃⟩ := h s₁ hs₁ hI hE i
    exact ⟨h₁, h₂, ih _ h₃⟩

/-- A program with a handler of its results and errors. -/
theorem Safe.attempt_bind {f : Except ε α → Proc C A ε' β} {Q' : Except ε' β → σ → Prop}
    (h : p.Safe exec I R E Q s) (hf : ∀ r s, Q r s → (f r).Safe exec I R E Q' s) :
    (p.attempt >>= f).Safe exec I R E Q' s := by
  refine h.attempt.bind (fun r s hr => ?_) fun e s hr => ?_
  · obtain ⟨x, hx, hQ⟩ := hr
    cases hx
    exact hf r s hQ
  · obtain ⟨x, hx, -⟩ := hr
    cases hx

/-- Safety without a postcondition is handed on by the constructs of programs. -/
theorem closed_safe : Closed fun ε α (p : Proc C A ε α) =>
    ∀ s, p.Safe exec I R E (fun _ _ => True) s where
  ret _ _ := trivial
  throw _ _ := trivial
  stop _ := trivial
  bind hp hf s := (hp s).bind (fun a s _ => hf a s) fun _ _ _ => trivial
  attempt hp s := (hp s).attempt.imp fun _ _ _ => trivial

/-- A process is safe if its commands are, whenever they are issued. -/
theorem Issues.safe {P : C → Prop} (h : p.Issues P) (hP : ∀ c, P c → ∀ s, I s → E c s → ∀ i,
    I (exec c i s).2 ∧ R s (exec c i s).2) (s : σ) : p.Safe exec I R E (fun _ _ => True) s := by
  induction p generalizing s with
  | ret | throw | stop => trivial
  | call c k ih =>
    intro s₁ _ hI hE i
    obtain ⟨h₁, h₂⟩ := hP c h.1 s₁ hI hE i
    exact ⟨h₁, h₂, ih _ (h.2 _) _⟩

/-- A condition that the interference keeps holds at the end of a safe process. -/
theorem Safe.keep (hrefl : ∀ s, R s s) (htrans : ∀ a b c, R a b → R b c → R a c) {K : σ → Prop}
    (hK : ∀ s', R s s' → K s') (h : p.Safe exec I R E Q s) :
    p.Safe exec I R E (fun r s' => K s' ∧ Q r s') s :=
  (h.remember hrefl htrans).imp fun _ s' hs => ⟨hK s' hs.1, hs.2⟩

/-- The next command of a safe process keeps the invariant, stays within the interference and
leaves the process safe. -/
theorem Safe.next (hrefl : ∀ s, R s s) (h : p.Safe exec I R E Q s) (hI : I s)
    (hE : ∀ c ∈ p.command?, E c s) (i : ι) :
    I (p.next exec i s).2 ∧ R s (p.next exec i s).2 ∧
      (p.next exec i s).1.Safe exec I R E Q (p.next exec i s).2 := by
  cases p with
  | ret | throw | stop => exact ⟨hI, hrefl s, h⟩
  | call c k => exact h s (hrefl s) hI (hE c rfl) i

end Safe

end Proc

/-! ### Pools -/

/-- Processes on a shared state. -/
structure Pool (C : Type) (A : C → Type) (ε α σ : Type) where
  state : σ
  procs : List (Proc C A ε α)

namespace Pool

variable {C : Type} {A : C → Type} {ε α ι σ : Type}

/-- The next command of the process with a number; nothing happens if there is none. -/
def step (exec : (c : C) → ι → σ → A c × σ) (x : Pool C A ε α σ) (l : ℕ × ι) :
    Pool C A ε α σ :=
  match x.procs[l.1]? with
  | none => x
  | some p => ⟨(p.next exec l.2 x.state).2, x.procs.set l.1 (p.next exec l.2 x.state).1⟩

/-- The command that the process with a number is about to issue. -/
def command? (x : Pool C A ε α σ) (j : ℕ) : Option C := x.procs[j]?.bind Proc.command?

/-- The value that the process with a number has returned. -/
def result? (x : Pool C A ε α σ) (j : ℕ) : Option α := x.procs[j]?.bind Proc.result?

/-- The commands of a schedule, one after the other. -/
def run (exec : (c : C) → ι → σ → A c × σ) (x : Pool C A ε α σ) (schedule : List (ℕ × ι)) :
    Pool C A ε α σ :=
  schedule.foldl (step exec) x

/-- A condition on every step of a schedule. -/
def Along (exec : (c : C) → ι → σ → A c × σ) (P : Pool C A ε α σ → ℕ × ι → Prop) :
    Pool C A ε α σ → List (ℕ × ι) → Prop
  | _, [] => True
  | x, l :: ls => P x l ∧ Along exec P (x.step exec l) ls

instance decidableAlong {exec : (c : C) → ι → σ → A c × σ}
    {P : Pool C A ε α σ → ℕ × ι → Prop} [∀ x l, Decidable (P x l)] :
    (x : Pool C A ε α σ) → (ls : List (ℕ × ι)) → Decidable (Along exec P x ls)
  | _, [] => isTrue trivial
  | x, l :: ls => @instDecidableAnd _ _ _ (decidableAlong (x.step exec l) ls)

variable {exec : (c : C) → ι → σ → A c × σ} {I : σ → Prop} {R : σ → σ → Prop}
  {E : C → σ → Prop} {x : Pool C A ε α σ}

theorem along_of_forall {P : Pool C A ε α σ → ℕ × ι → Prop} (h : ∀ y l, P y l)
    (schedule : List (ℕ × ι)) : x.Along exec P schedule := by
  induction schedule generalizing x with
  | nil => trivial
  | cons l ls ih => exact ⟨h x l, ih⟩

theorem Along.imp {P P' : Pool C A ε α σ → ℕ × ι → Prop} {schedule : List (ℕ × ι)}
    (h : x.Along exec P schedule) (hP : ∀ y l, P y l → P' y l) : x.Along exec P' schedule := by
  induction schedule generalizing x with
  | nil => trivial
  | cons l ls ih => exact ⟨hP x l h.1, ih h.2⟩

/-- An invariant that every step keeps which meets a condition. -/
theorem Along.invariant {P : Pool C A ε α σ → ℕ × ι → Prop} {schedule : List (ℕ × ι)}
    (h : x.Along exec P schedule)
    (hstep : ∀ y l, I y.state → P y l → I (y.step exec l).state) (hx : I x.state) :
    I (x.run exec schedule).state := by
  induction schedule generalizing x with
  | nil => exact hx
  | cons l ls ih => exact ih h.2 (hstep x l hx h.1)

theorem step_of_getElem? {p : Proc C A ε α} {l : ℕ × ι} (h : x.procs[l.1]? = some p) :
    x.step exec l = ⟨(p.next exec l.2 x.state).2, x.procs.set l.1 (p.next exec l.2 x.state).1⟩ := by
  rw [step, h]

theorem step_of_none {l : ℕ × ι} (h : x.procs[l.1]? = none) : x.step exec l = x := by
  rw [step, h]

/-- A step leaves the state alone or issues a command. -/
theorem step_state_cases (exec : (c : C) → ι → σ → A c × σ) (x : Pool C A ε α σ) (l : ℕ × ι) :
    (x.step exec l).state = x.state ∨ ∃ c k, x.procs[l.1]? = some (.call c k) ∧
      (x.step exec l).state = (exec c l.2 x.state).2 := by
  rcases hp : x.procs[l.1]? with _ | p
  · exact Or.inl (by rw [step_of_none hp])
  rw [step_of_getElem? hp]
  cases p with
  | ret | throw | stop => exact Or.inl rfl
  | call c k => exact Or.inr ⟨c, k, rfl, rfl⟩

/-- A step leaves the other processes alone. -/
theorem getElem?_step_of_ne {l : ℕ × ι} {j : ℕ} (hl : l.1 ≠ j) :
    (x.step exec l).procs[j]? = x.procs[j]? := by
  rcases hp : x.procs[l.1]? with _ | p
  · rw [step_of_none hp]
  · rw [step_of_getElem? hp, List.getElem?_set_ne hl]

theorem getElem?_step_self {p : Proc C A ε α} {l : ℕ × ι} (hp : x.procs[l.1]? = some p) :
    (x.step exec l).procs[l.1]? = some (p.next exec l.2 x.state).1 := by
  rw [step_of_getElem? hp, List.getElem?_set_self (List.getElem?_eq_some_iff.mp hp).1]

theorem exists_of_command? {j : ℕ} {c : C} (h : x.command? j = some c) :
    ∃ k, x.procs[j]? = some (.call c k) := by
  obtain ⟨p, hp, hc⟩ := Option.bind_eq_some_iff.mp h
  cases p with
  | ret | throw | stop => cases hc
  | call c' k =>
    cases hc
    exact ⟨k, hp⟩

/-- A condition on all processes that their commands hand on is kept. -/
theorem step_forall {G : Proc C A ε α → Prop} (hG : ∀ p i s, G p → G (p.next exec i s).1)
    (h : ∀ p ∈ x.procs, G p) (l : ℕ × ι) : ∀ p ∈ (x.step exec l).procs, G p := by
  rcases hp : x.procs[l.1]? with _ | p
  · rwa [step_of_none hp]
  rw [step_of_getElem? hp]
  intro q hq
  rcases List.mem_or_eq_of_mem_set hq with hq | rfl
  · exact h q hq
  · exact hG p l.2 x.state (h p (List.mem_of_getElem? hp))

/-- A condition on all commands of a pool is kept. -/
theorem step_issues {P : C → Prop} (h : ∀ p ∈ x.procs, p.Issues P) (l : ℕ × ι) :
    ∀ p ∈ (x.step exec l).procs, p.Issues P := step_forall (fun _ i s hp => hp.next i s) h l

theorem run_append (x : Pool C A ε α σ) (l l' : List (ℕ × ι)) :
    x.run exec (l ++ l') = (x.run exec l).run exec l' := List.foldl_append

theorem run_forall {G : Proc C A ε α → Prop} (hG : ∀ p i s, G p → G (p.next exec i s).1)
    (h : ∀ p ∈ x.procs, G p) (schedule : List (ℕ × ι)) :
    ∀ p ∈ (x.run exec schedule).procs, G p := by
  induction schedule generalizing x with
  | nil => exact h
  | cons l ls ih => exact ih (step_forall hG h l)

theorem run_issues {P : C → Prop} (h : ∀ p ∈ x.procs, p.Issues P) (schedule : List (ℕ × ι)) :
    ∀ p ∈ (x.run exec schedule).procs, p.Issues P :=
      run_forall (fun _ i s hp => hp.next i s) h schedule

/-- A relation that every command keeps is kept by a run. -/
theorem run_rel {R : σ → σ → Prop} (hrefl : ∀ s, R s s) (htrans : ∀ a b c, R a b → R b c → R a c)
    (hexec : ∀ c i s, R s (exec c i s).2) (x : Pool C A ε α σ) (schedule : List (ℕ × ι)) :
    R x.state (x.run exec schedule).state := by
  induction schedule generalizing x with
  | nil => exact hrefl _
  | cons l ls ih =>
    refine htrans _ _ _ ?_ (ih (x.step exec l))
    rcases x.step_state_cases exec l with hsame | ⟨c, k, -, hc⟩
    · rw [hsame]
      exact hrefl _
    · rw [hc]
      exact hexec c l.2 x.state

variable (exec) in
/-- A condition on a process that its own commands hand on under an invariant of all commands. -/
theorem run_of_invariant {G : Proc C A ε α → Prop} (hI : ∀ c i s, I s → I (exec c i s).2)
    (hG : ∀ p i s, I s → G p → G (p.next exec i s).1) {j : ℕ} {p : Proc C A ε α}
    (hp : x.procs[j]? = some p) (hx : I x.state) (hGp : G p) (schedule : List (ℕ × ι)) :
    I (x.run exec schedule).state ∧ ∃ p', (x.run exec schedule).procs[j]? = some p' ∧ G p' := by
  induction schedule generalizing x p with
  | nil => exact ⟨hx, p, hp, hGp⟩
  | cons l ls ih =>
    have hstate : I (x.step exec l).state := by
      rcases x.step_state_cases exec l with hsame | ⟨c, k, -, hc⟩
      · rwa [hsame]
      · rw [hc]
        exact hI c l.2 x.state hx
    by_cases hl : l.1 = j
    · subst hl
      exact ih (getElem?_step_self hp) hstate (hG p l.2 x.state hx hGp)
    · exact ih ((getElem?_step_of_ne hl).trans hp) hstate hGp

/-- **Last commands.** A process that is about to issue a command has issued none along the run, or
it goes on with the answer of the last one. -/
theorem exists_last_command {schedule : List (ℕ × ι)} {j : ℕ} {c' : C} {k' : A c' → Proc C A ε α}
    (h : (x.run exec schedule).procs[j]? = some (.call c' k')) :
    (x.procs[j]? = some (.call c' k') ∧ ∀ l ∈ schedule, l.1 ≠ j) ∨
    ∃ past i future c k, schedule = past ++ (j, i) :: future ∧ (∀ l ∈ future, l.1 ≠ j) ∧
      (x.run exec past).procs[j]? = some (.call c k) ∧
      k (exec c i (x.run exec past).state).1 = .call c' k' := by
  induction schedule generalizing x with
  | nil => exact Or.inl ⟨h, fun _ hl => nomatch hl⟩
  | cons l ls ih =>
    rcases ih h with ⟨hp, hls⟩ | ⟨past, i, future, c, k, rfl, hfuture, hpast, hk⟩
    · by_cases hl : l.1 = j
      · subst hl
        rcases hq : x.procs[l.1]? with _ | q
        · rw [step_of_none hq, hq] at hp
          cases hp
        · have hnext := Option.some.inj ((getElem?_step_self hq).symm.trans hp)
          cases q with
          | ret | throw | stop => cases hnext
          | call c k => exact Or.inr ⟨[], l.2, ls, c, k, rfl, hls, hq, hnext⟩
      · refine Or.inl ⟨(getElem?_step_of_ne hl).symm.trans hp, fun m hm => ?_⟩
        rcases List.mem_cons.mp hm with rfl | hm
        · exact hl
        · exact hls m hm
    · exact Or.inr ⟨l :: past, i, future, c, k, rfl, hfuture, hpast, hk⟩

/-- A condition that comes to hold along a run does so at one of the steps. -/
theorem exists_step_of_run {P : σ → Prop} (hx : ¬ P x.state) {schedule : List (ℕ × ι)}
    (h : P (x.run exec schedule).state) : ∃ past l future, schedule = past ++ l :: future ∧
      ¬ P (x.run exec past).state ∧ P (x.run exec (past ++ [l])).state := by
  induction schedule generalizing x with
  | nil => exact absurd h hx
  | cons l ls ih =>
    by_cases hl : P (x.step exec l).state
    · exact ⟨[], l, ls, rfl, hx, hl⟩
    · obtain ⟨past, l', future, hls, hpast, hnext⟩ := ih hl h
      exact ⟨l :: past, l', future, by rw [hls, List.cons_append], hpast, hnext⟩

/-! ### Safety of a pool -/

section Safe

variable (exec I R E) in
/-- The invariant holds and every process is safe, with some stable postcondition. -/
structure Safe (x : Pool C A ε α σ) : Prop where
  invariant : I x.state
  safe : ∀ p ∈ x.procs, ∃ Q : Except ε α → σ → Prop, (∀ r s s', Q r s → R s s' → Q r s') ∧
    p.Safe exec I R E Q x.state

variable (E) in
/-- The steps whose command is expected. -/
def Expected (y : Pool C A ε α σ) (l : ℕ × ι) : Prop := ∀ c ∈ y.command? l.1, E c y.state

instance [∀ c s, Decidable (E c s)] (y : Pool C A ε α σ) (l : ℕ × ι) :
    Decidable (Expected E y l) := inferInstanceAs (Decidable (∀ _ ∈ _, _))

variable (hrefl : ∀ s, R s s) (htrans : ∀ a b c, R a b → R b c → R a c)
include hrefl htrans

/-- A command of a process of a safe pool. -/
theorem Safe.step (h : x.Safe exec I R E) {l : ℕ × ι} (hE : Expected E x l) :
    (x.step exec l).Safe exec I R E ∧ R x.state (x.step exec l).state := by
  rcases hp : x.procs[l.1]? with _ | p
  · rw [step_of_none hp]
    exact ⟨h, hrefl _⟩
  obtain ⟨Q, hQ, hsafe⟩ := h.safe p (List.mem_of_getElem? hp)
  obtain ⟨hI, hR, hnext⟩ := hsafe.next hrefl h.invariant
    (fun c hc => hE c (by rw [command?, hp]; exact hc)) l.2
  rw [step_of_getElem? hp]
  refine ⟨⟨hI, fun q hq => ?_⟩, hR⟩
  rcases List.mem_or_eq_of_mem_set hq with hq | rfl
  · obtain ⟨Q', hQ', hsafe'⟩ := h.safe q hq
    exact ⟨Q', hQ', hsafe'.mono htrans hQ' hR⟩
  · exact ⟨Q, hQ, hnext⟩

/-- A pool of safe processes keeps the invariant along every schedule of expected commands. -/
theorem safe_run (h : x.Safe exec I R E) {schedule : List (ℕ × ι)}
    (hE : x.Along exec (Expected E) schedule) :
    (x.run exec schedule).Safe exec I R E ∧ R x.state (x.run exec schedule).state := by
  induction schedule generalizing x with
  | nil => exact ⟨h, hrefl _⟩
  | cons l ls ih =>
    obtain ⟨hstep, hR⟩ := h.step hrefl htrans hE.1
    obtain ⟨hrun, hR'⟩ := ih hstep hE.2
    exact ⟨hrun, htrans _ _ _ hR hR'⟩

/-- A safe process among processes whose commands stay within the interference, along a schedule
on which its own commands are expected. -/
theorem safe_run_of_rely {j : ℕ} {p : Proc C A ε α} {Q : Except ε α → σ → Prop}
    (hQ : ∀ r s s', Q r s → R s s' → Q r s') (hp : x.procs[j]? = some p) (hI : I x.state)
    (hIR : ∀ s s', I s → R s s' → I s')
    (hsafe : p.Safe exec I R E Q x.state) {schedule : List (ℕ × ι)}
    (h : x.Along exec (fun y l => (l.1 = j → ∀ c ∈ y.command? j, E c y.state) ∧
      (l.1 ≠ j → R y.state (y.step exec l).state)) schedule) :
    ∃ p', (x.run exec schedule).procs[j]? = some p' ∧ I (x.run exec schedule).state ∧
      p'.Safe exec I R E Q (x.run exec schedule).state := by
  induction schedule generalizing x p with
  | nil => exact ⟨p, hp, hI, hsafe⟩
  | cons l ls ih =>
    obtain ⟨⟨hown, hother⟩, hrest⟩ := h
    by_cases hl : l.1 = j
    · subst hl
      obtain ⟨hI₁, -, hnext⟩ := hsafe.next hrefl hI
        (fun c hc => hown rfl c (by rw [command?, hp]; exact hc)) l.2
      have hstep : x.step exec l = _ := step_of_getElem? hp
      refine ih ?_ (hstep ▸ hI₁) (by rw [hstep]; exact hnext) hrest
      rw [hstep]
      simp [(List.getElem?_eq_some_iff.mp hp).1]
    · have hR := hother hl
      refine ih ?_ (hIR _ _ hI hR) (hsafe.mono htrans hQ hR) hrest
      rcases hq : x.procs[l.1]? with _ | q
      · rw [step_of_none hq]
        exact hp
      · rw [step_of_getElem? hq]
        simpa [List.getElem?_set, hl] using hp

end Safe

end Pool

end OpenRath
