import OpenRath.Library.Process

/-!
# Programs with notes

A law about what a program hands to a part of itself, and not to the outside, does not show in its
commands. The program is then written with notes: commands that only the laws know of. Without its
notes (`Proc.forget`) it has to be the program that the law is about.

What notes a program takes after a part of it depends on the values that the part can return
(`Proc.notes_unnoted_bind`).

## Main definitions

* `Proc.Returns`: a condition on the values that a process can return.
* `Proc.Noted`, `Proc.note`, `Proc.unnoted`, `Proc.forget`: programs with notes.
* `Proc.Notes`: a condition on the notes that a program can take.
* `Proc.notedExec`, `Proc.NotedSafe`: execution of programs with notes, and their safety.

## Main results

* `Proc.notes_unnoted_bind`: the notes after a part of a program.
* `Proc.Safe.unnoted`: a safe program takes no notes.
-/

namespace OpenRath.Proc

variable {C : Type} {A : C → Type} {N ε ε' α β γ : Type}

/-! ### Values -/

/-- All values that a process can return, whatever its commands answer, satisfy a condition. -/
def Returns (P : α → Prop) : Proc C A ε α → Prop
  | ret a => P a
  | throw _ | stop => True
  | call _ k => ∀ r, (k r).Returns P

theorem returns_of_forall {P : α → Prop} (h : ∀ a, P a) (p : Proc C A ε α) : p.Returns P := by
  induction p with
  | ret a => exact h a
  | throw | stop => trivial
  | call c k ih => exact ih

theorem Returns.imp {P P' : α → Prop} {p : Proc C A ε α} (h : p.Returns P)
    (hP : ∀ a, P a → P' a) : p.Returns P' := by
  induction p with
  | ret a => exact hP a h
  | throw | stop => trivial
  | call c k ih => exact fun r => ih r (h r)

theorem Returns.bind {P : α → Prop} {P' : β → Prop} {p : Proc C A ε α} {f : α → Proc C A ε β}
    (h : p.Returns P) (hf : ∀ a, P a → (f a).Returns P') : (p >>= f).Returns P' := by
  induction p with
  | ret a => exact hf a h
  | throw | stop => trivial
  | call c k ih => exact fun r => ih r (h r)

/-- The commands after a part of a program depend on the values that the part can return. -/
theorem Issues.bind_of_returns {P : C → Prop} {Q : α → Prop} {p : Proc C A ε α}
    {f : α → Proc C A ε β} (h : p.Issues P) (hp : p.Returns Q)
    (hf : ∀ a, Q a → (f a).Issues P) : (p >>= f).Issues P := by
  induction p with
  | ret a => exact hf a hp
  | throw | stop => trivial
  | call c k ih => exact ⟨h.1, fun r => ih r (h.2 r) (hp r)⟩

/-- The values of a program do not depend on how its commands are carried out. -/
theorem Returns.interpret {C' : Type} {A' : C' → Type} {P : α → Prop} {p : Proc C A ε α}
    (h : p.Returns P) (f : (c : C) → Proc C' A' ε' (A c)) (g : ε → ε') :
    (p.interpret f g).Returns P := by
  induction p with
  | ret a => exact h
  | throw | stop => trivial
  | call c k ih =>
    have hf : (f c).Returns fun _ => True := returns_of_forall (fun _ => trivial) _
    exact hf.bind fun r _ => ih r (h r)

/-- The values that a safe process can return. -/
theorem Safe.and_returns {ι σ : Type} {exec : (c : C) → ι → σ → A c × σ} {I : σ → Prop}
    {R : σ → σ → Prop} {E : C → σ → Prop} {Q : Except ε α → σ → Prop} {P : α → Prop}
    {p : Proc C A ε α} {s : σ} (h : p.Safe exec I R E Q s) (hp : p.Returns P) :
    p.Safe exec I R E (fun r s' => Q r s' ∧ ∀ a, r = .ok a → P a) s := by
  induction p generalizing s with
  | ret a =>
    refine ⟨h, fun b hb => ?_⟩
    cases hb
    exact hp
  | throw e => exact ⟨h, fun b hb => by cases hb⟩
  | stop => trivial
  | call c k ih =>
    intro s₁ hs₁ hI hE i
    obtain ⟨h₁, h₂, h₃⟩ := h s₁ hs₁ hI hE i
    exact ⟨h₁, h₂, ih _ h₃ (hp _)⟩

/-- Programs that go on alike from every value that can be returned. -/
theorem Returns.bind_congr {p : Proc C A ε α} {f g : α → Proc C A ε β}
    (h : p.Returns fun a => f a = g a) : p.bind f = p.bind g := by
  induction p with
  | ret a => exact h
  | throw | stop => rfl
  | call c k ih => exact congrArg (call c) (funext fun r => ih r (h r))

theorem bind_assoc (p : Proc C A ε α) (f : α → Proc C A ε β) (g : β → Proc C A ε γ) :
    (p.bind f).bind g = p.bind fun a => (f a).bind g := by
  induction p with
  | ret | throw | stop => rfl
  | call c k ih => exact congrArg (call c) (funext ih)

/-! ### Notes -/

/-- What a command answers; a note is not answered. -/
def NotedAnswer (A : C → Type) (N : Type) : C ⊕ N → Type
  | .inl c => A c
  | .inr _ => Unit

/-- A program that takes notes. -/
abbrev Noted (C : Type) (A : C → Type) (N ε α : Type) : Type := Proc (C ⊕ N) (NotedAnswer A N) ε α

/-- A note is taken. -/
def note (n : N) : Noted C A N ε Unit := call (.inr n) fun _ => ret ()

/-- A program that takes no notes. -/
def unnoted : Proc C A ε α → Noted C A N ε α
  | ret a => ret a
  | throw e => throw e
  | stop => stop
  | call c k => call (.inl c) fun r => unnoted (k r)

/-- What is left of a command without the notes. -/
def forgetCmd : (c : C ⊕ N) → Proc C A ε (NotedAnswer A N c)
  | .inl c => call c ret
  | .inr _ => ret ()

/-- The program without its notes. -/
def forget (p : Noted C A N ε α) : Proc C A ε α := p.interpret forgetCmd id

theorem interpret_bind {C' : Type} {A' : C' → Type} (f : (c : C) → Proc C' A' ε' (A c))
    (g : ε → ε') (p : Proc C A ε α) (q : α → Proc C A ε β) :
    (p.bind q).interpret f g = (p.interpret f g).bind fun a => (q a).interpret f g := by
  induction p with
  | ret | throw | stop => rfl
  | call c k ih =>
    rw [call_bind, interpret, interpret, bind_assoc]
    exact congrArg (f c).bind (funext ih)

@[simp] theorem forget_bind (p : Noted C A N ε α) (q : α → Noted C A N ε β) :
    (p.bind q).forget = p.forget.bind fun a => (q a).forget :=
  interpret_bind _ _ p q

/-- A sequence of two programs without their notes. -/
theorem forget_bind_of_eq {p : Noted C A N ε α} {p' : Proc C A ε α} {q : α → Noted C A N ε β}
    {q' : α → Proc C A ε β} (hp : p.forget = p') (hq : ∀ a, (q a).forget = q' a) :
    (p >>= q).forget = p' >>= q' := by
  rw [bind_eq, bind_eq, forget_bind, hp, funext hq]

@[simp] theorem forget_note (n : N) : (note n : Noted C A N ε Unit).forget = ret () := rfl

@[simp] theorem forget_unnoted (p : Proc C A ε α) : (p.unnoted : Noted C A N ε α).forget = p := by
  induction p with
  | ret | throw | stop => rfl
  | call c k ih => exact congrArg (call c) (funext ih)

@[simp] theorem forget_ofExcept (x : Except ε α) :
    (ofExcept x : Noted C A N ε α).forget = ofExcept x := by
  cases x <;> rfl

@[simp] theorem forget_ite {c : Prop} [Decidable c] (p q : Noted C A N ε α) :
    (if c then p else q).forget = if c then p.forget else q.forget :=
  apply_ite forget c p q

@[simp] theorem forget_throwUnless (c : Prop) [Decidable c] (e : ε) :
    (throwUnless c e : Noted C A N ε Unit).forget = throwUnless c e :=
  forget_ite _ _

@[simp] theorem forget_attempt (p : Noted C A N ε α) :
    (p.attempt : Noted C A N ε' (Except ε α)).forget = p.forget.attempt := by
  induction p with
  | ret | throw | stop => rfl
  | call c k ih =>
    cases c with
    | inl c => exact congrArg (call c) (funext ih)
    | inr n => exact ih ()

/-- All notes that a program can take, whatever its commands answer, satisfy a condition. -/
def Notes (P : N → Prop) (p : Noted C A N ε α) : Prop := p.Issues (Sum.elim (fun _ => True) P)

variable {P : N → Prop}

theorem notes_note_bind {n : N} {q : Unit → Noted C A N ε α} :
    ((note n).bind q).Notes P ↔ P n ∧ (q ()).Notes P :=
  and_congr_right fun _ => forall_const Unit

theorem notes_unnoted_bind {p : Proc C A ε α} {q : α → Noted C A N ε β} :
    ((p.unnoted).bind q).Notes P ↔ p.Returns fun a => (q a).Notes P := by
  induction p with
  | ret | throw | stop => rfl
  | call c k ih =>
    refine Iff.trans (iff_of_eq (true_and _)) ?_
    exact forall_congr' ih

/-! ### Execution -/

section Execution

variable {ι σ : Type} (exec : (c : C) → ι → σ → A c × σ)

/-- The notes are taken down beside the state. -/
def notedExec : (c : C ⊕ N) → ι → σ × List N → NotedAnswer A N c × (σ × List N)
  | .inl c, i, s => ((exec c i s.1).1, (exec c i s.1).2, s.2)
  | .inr n, _, s => ((), s.1, s.2 ++ [n])

variable {exec} {I : σ → Prop} {R : σ → σ → Prop} {Q : Except ε α → σ → Prop} {p : Proc C A ε α}

variable (I P) in
/-- An invariant of the state, and a condition on all notes. -/
def NotedInvariant (x : σ × List N) : Prop := I x.1 ∧ ∀ n ∈ x.2, P n

variable (exec I R P) in
/-- Safety of a program with notes that all satisfy a condition. -/
abbrev NotedSafe (Q : Except ε α → σ → Prop) (p : Noted C A N ε α) (x : σ × List N) : Prop :=
  p.Safe (notedExec exec) (NotedInvariant P I) (fun x y => R x.1 y.1) (fun _ _ => True)
    (fun r x => Q r x.1) x

theorem Safe.unnoted {x : σ × List N} (h : p.Safe exec I R (fun _ _ => True) Q x.1) :
    NotedSafe P exec I R Q (p.unnoted : Noted C A N ε α) x := by
  induction p generalizing x with
  | ret a => exact h
  | throw e => exact h
  | stop => trivial
  | call c k ih =>
    intro y hy hI _ i
    obtain ⟨h₁, h₂, h₃⟩ := h y.1 hy hI.1 trivial i
    exact ⟨⟨h₁, hI.2⟩, h₂, ih _ h₃⟩

theorem notedSafe_note (hrefl : ∀ s, R s s) {n : N} (hn : P n) (x : σ × List N) :
    NotedSafe P exec I R (fun _ _ => True) (note n : Noted C A N ε Unit) x := by
  intro y _ hI _ _
  refine ⟨⟨hI.1, fun m hm => ?_⟩, hrefl y.1, trivial⟩
  rcases List.mem_append.mp hm with hm | hm
  · exact hI.2 m hm
  · exact List.mem_singleton.mp hm ▸ hn

end Execution

end OpenRath.Proc
