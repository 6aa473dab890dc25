import OpenRath.Library.Process

/-!
# Protocols of processes

A protocol distinguishes phases of a process: it says which commands may be issued in a phase, which
answers they may get, and to which phase an answer leads. Phases are not part of a process; that a
process follows a protocol is a property of its tree of commands.

In a pool, each process is in a phase of its own. An invariant of the shared state together with
the phases of all processes, and with the commands that have been issued so far, is kept by a run
if every allowed command keeps it.

## Main definitions

* `Protocol`, `Proc.Follows`, `Proc.Obeys`.
* `Pool.trace`: the commands that a schedule issues.

## Main results

* `Proc.Follows.bind`, `Proc.closed_obeys`, `Proc.Issues.obeys`: the rules.
* `Pool.exists_last_allowed`: a command is allowed in the phase after the last one of its process.
* `Pool.follows_run`: the invariant rule of a pool whose processes follow a protocol.
-/

namespace OpenRath

/-- Phases of a process with the commands allowed in each, and their order. -/
structure Protocol (C : Type) (A : C → Type) (L : Type) where
  allows : L → C → Prop
  /-- The answers that a command may get. -/
  answers : (c : C) → A c → Prop
  /-- The phase after an answer. -/
  advance : L → (c : C) → A c → L

namespace Proc

variable {C : Type} {A : C → Type} {ε ε' α β ι σ L : Type}

/-- From a phase on, the process issues only commands that are allowed. -/
def Follows (P : Protocol C A L) : Proc C A ε α → L → Prop
  | ret _, _ | throw _, _ | stop, _ => True
  | call c k, l => P.allows l c ∧ ∀ r, P.answers c r → (k r).Follows P (P.advance l c r)

/-- The process follows the protocol from every phase on. -/
def Obeys (P : Protocol C A L) (p : Proc C A ε α) : Prop := ∀ l, p.Follows P l

variable {P : Protocol C A L}

theorem Follows.bind {p : Proc C A ε α} {f : α → Proc C A ε β} {l : L} (h : p.Follows P l)
    (hf : ∀ a, (f a).Obeys P) : (p >>= f).Follows P l := by
  induction p generalizing l with
  | ret a => exact hf a l
  | throw | stop => trivial
  | call c k ih => exact ⟨h.1, fun r hr => ih r (h.2 r hr)⟩

theorem follows_ite {c : Prop} [Decidable c] {p q : Proc C A ε α} {l : L}
    (hp : p.Follows P l) (hq : q.Follows P l) : (if c then p else q).Follows P l := by
  split_ifs
  · exact hp
  · exact hq

theorem Obeys.bind {p : Proc C A ε α} {f : α → Proc C A ε β} (h : p.Obeys P)
    (hf : ∀ a, (f a).Obeys P) : (p >>= f).Obeys P := fun l => (h l).bind hf

theorem Obeys.attempt {p : Proc C A ε α} (h : p.Obeys P) :
    (p.attempt : Proc C A ε' (Except ε α)).Obeys P := by
  intro l
  have hl := h l
  clear h
  induction p generalizing l with
  | ret | throw | stop => trivial
  | call c k ih => exact ⟨hl.1, fun r hr => ih r _ (hl.2 r hr)⟩

theorem closed_obeys (P : Protocol C A L) : Closed fun _ _ (p : Proc C A _ _) => p.Obeys P where
  ret _ _ := trivial
  throw _ _ := trivial
  stop _ := trivial
  bind := Obeys.bind
  attempt := Obeys.attempt

/-- A process whose commands are allowed in every phase follows the protocol. -/
theorem Issues.obeys {p : Proc C A ε α} (h : p.Issues fun c => ∀ l, P.allows l c) :
    p.Obeys P := by
  intro l
  induction p generalizing l with
  | ret | throw | stop => trivial
  | call c k ih => exact ⟨h.1 l, fun r _ => ih r (h.2 r) _⟩

/-- A step of a process follows the protocol from some phase on. -/
theorem Follows.exists_next {exec : (c : C) → ι → σ → A c × σ}
    (hexec : ∀ c i s, P.answers c (exec c i s).1) {p : Proc C A ε α} {l : L}
    (h : p.Follows P l) (i : ι) (s : σ) : ∃ l', (p.next exec i s).1.Follows P l' := by
  cases p with
  | ret | throw | stop => exact ⟨l, trivial⟩
  | call c k => exact ⟨_, h.2 _ (hexec c i s)⟩

end Proc

/-! ### Pools -/

namespace Pool

variable {C : Type} {A : C → Type} {ε α ι σ L : Type} {exec : (c : C) → ι → σ → A c × σ}
  {P : Protocol C A L} {x : Pool C A ε α σ}

/-- The commands that a schedule issues, in their order. -/
def trace (exec : (c : C) → ι → σ → A c × σ) : Pool C A ε α σ → List (ℕ × ι) → List C
  | _, [] => []
  | x, l :: ls => (x.command? l.1).toList ++ trace exec (x.step exec l) ls

/-- Each process follows the protocol from its phase on. -/
structure Follows (P : Protocol C A L) (x : Pool C A ε α σ) (ls : List L) : Prop where
  length_eq : ls.length = x.procs.length
  follows : ∀ (j : ℕ) (p : Proc C A ε α) (l : L), x.procs[j]? = some p → ls[j]? = some l →
    p.Follows P l

/-- Processes that obey the protocol follow it from any phases on. -/
theorem follows_replicate (h : ∀ p ∈ x.procs, p.Obeys P) (l : L) :
    x.Follows P (List.replicate x.procs.length l) :=
  ⟨List.length_replicate .., fun _ p l' hp _ => h p (List.mem_of_getElem? hp) l'⟩

/-- A step of a pool leaves it as it is, or it issues an allowed command. -/
theorem Follows.step_cases (hexec : ∀ c i s, P.answers c (exec c i s).1) {ls : List L}
    (h : x.Follows P ls) (a : ℕ × ι) :
    (x.command? a.1 = none ∧ (x.step exec a).state = x.state ∧
      (x.step exec a).Follows P ls) ∨
    ∃ l c, ls[a.1]? = some l ∧ P.allows l c ∧ x.command? a.1 = some c ∧
      (x.step exec a).state = (exec c a.2 x.state).2 ∧
      (x.step exec a).Follows P (ls.set a.1 (P.advance l c (exec c a.2 x.state).1)) := by
  rcases hp : x.procs[a.1]? with _ | p
  · rw [step_of_none hp, command?, hp]
    exact Or.inl ⟨rfl, rfl, h⟩
  have hlt : a.1 < x.procs.length := (List.getElem?_eq_some_iff.mp hp).1
  rw [step_of_getElem? hp, command?, hp]
  cases p with
  | ret | throw | stop =>
    refine Or.inl ⟨rfl, rfl, ?_, fun j p l hj hl => ?_⟩
    · simpa using h.length_eq
    · obtain ⟨_, hget⟩ := List.getElem?_eq_some_iff.mp hp
      simp only [Proc.next, ← hget, List.set_getElem_self] at hj
      exact h.follows j p l hj hl
  | call c k =>
    have hls : a.1 < ls.length := h.length_eq ▸ hlt
    have hl : ls[a.1]? = some ls[a.1] := List.getElem?_eq_getElem hls
    obtain ⟨hallows, hk⟩ := h.follows a.1 _ _ hp hl
    refine Or.inr ⟨ls[a.1], c, hl, hallows, rfl, rfl, ?_, fun j q l hj hl' => ?_⟩
    · simpa using h.length_eq
    · by_cases hja : a.1 = j
      · subst hja
        rw [List.getElem?_set_self hlt, Option.some.injEq] at hj
        rw [List.getElem?_set_self hls, Option.some.injEq] at hl'
        subst hj hl'
        exact hk _ (hexec ..)
      · rw [List.getElem?_set_ne hja] at hj hl'
        exact h.follows j q l hj hl'

/-- In a pool whose processes follow a protocol, a process that is about to issue a command may do
so in the phase after the last command it has issued. -/
theorem exists_last_allowed (hexec : ∀ c i s, P.answers c (exec c i s).1)
    {l₀ : L} (h : ∀ p ∈ x.procs, p.Follows P l₀) {schedule : List (ℕ × ι)} {j : ℕ} {c' : C}
    (hc : (x.run exec schedule).command? j = some c') :
    P.allows l₀ c' ∨ ∃ past i future c l, schedule = past ++ (j, i) :: future ∧
      (∀ m ∈ future, m.1 ≠ j) ∧ (x.run exec past).command? j = some c ∧
      P.allows (P.advance l c (exec c i (x.run exec past).state).1) c' := by
  obtain ⟨k', hk'⟩ := exists_of_command? hc
  rcases exists_last_command hk' with ⟨hp, -⟩ | ⟨past, i, future, c, k, hs, hfuture, hp, hk⟩
  · exact Or.inl (h _ (List.mem_of_getElem? hp)).1
  · have hfollows : ∀ p ∈ (x.run exec past).procs, ∃ l, p.Follows P l :=
      run_forall (fun p i s ⟨l, hl⟩ => hl.exists_next hexec i s) (fun p hp => ⟨l₀, h p hp⟩) past
    obtain ⟨l, -, hl⟩ := hfollows _ (List.mem_of_getElem? hp)
    have hnext := hl _ (hexec c i (x.run exec past).state)
    rw [hk] at hnext
    refine Or.inr ⟨past, i, future, c, l, hs, hfuture, ?_, hnext.1⟩
    rw [command?, hp]
    rfl

/-- The number of phases of a kind when one of them changes. -/
theorem countP_set_add {ls : List L} {j : ℕ} {l : L} (hl : ls[j]? = some l) (l' : L)
    (p : L → Bool) : (ls.set j l').countP p + (if p l then 1 else 0) =
      ls.countP p + if p l' then 1 else 0 := by
  obtain ⟨hj, rfl⟩ := List.getElem?_eq_some_iff.mp hl
  rw [List.countP_set hj]
  by_cases hp : p ls[j]
  · have hpos : 0 < ls.countP p := List.countP_pos_iff.mpr ⟨_, List.getElem_mem hj, hp⟩
    rw [if_pos hp]
    omega
  · rw [if_neg hp]
    omega

/-- **Invariant rule.** An invariant of the commands issued so far, the state and the phases that
is kept by every allowed command is kept by a run; a condition on the commands may be assumed that
holds of the whole run. -/
theorem follows_run {D : List C → Prop} {I : List C → σ → List L → Prop}
    (hexec : ∀ c i s, P.answers c (exec c i s).1) (hD : ∀ cs cs', D (cs ++ cs') → D cs)
    (hstep : ∀ cs s ls j l c i, D (cs ++ [c]) → I cs s ls → ls[j]? = some l → P.allows l c →
      I (cs ++ [c]) (exec c i s).2 (ls.set j (P.advance l c (exec c i s).1)))
    (cs : List C) {ls : List L} (hx : x.Follows P ls) (hI : I cs x.state ls)
    (schedule : List (ℕ × ι)) (hcs : D (cs ++ x.trace exec schedule)) :
    ∃ ls', (x.run exec schedule).Follows P ls' ∧
      I (cs ++ x.trace exec schedule) (x.run exec schedule).state ls' := by
  induction schedule generalizing x cs ls with
  | nil => exact ⟨ls, hx, by rwa [trace, List.append_nil]⟩
  | cons a schedule ih =>
    rcases hx.step_cases hexec a with
      ⟨hnone, hstate, hfollows⟩ | ⟨l, c, hl, hallows, hc, hstate, hfollows⟩
    · have htrace : x.trace exec (a :: schedule) = (x.step exec a).trace exec schedule := by
        rw [trace, hnone]
        rfl
      rw [htrace] at hcs ⊢
      exact ih cs hfollows (hstate ▸ hI) hcs
    · have htrace : cs ++ x.trace exec (a :: schedule) =
          (cs ++ [c]) ++ (x.step exec a).trace exec schedule := by
        rw [trace, hc, List.append_assoc]
        rfl
      rw [htrace] at hcs ⊢
      exact ih _ hfollows (hstate ▸ hstep cs x.state ls a.1 l c a.2 (hD _ _ hcs) hI hl hallows) hcs

end Pool

end OpenRath
