import Mathlib.Logic.Basic
import Mathlib.Tactic.SplitIfs

/-!
# Transaction bodies that may raise

A transaction body reads and writes a state, statement by statement, and may raise an error at
any statement. The state it leaves behind is recorded also when it raises, so that the rollback
of the surrounding transaction (`Tx.atomically`) is an operation of its own and not a
convention: without it the writes made before the error would stay.

Reasoning about a body goes through two judgements. `x.Yields s a s'` says that `x`, started in
`s`, returns `a` and leaves `s'`; `x.Raises s e` says that it raises `e`. Both are decomposed
along the statements of the body by the simp lemmas of this file, so that what a successful
transaction did is read off by peeling its body from the first statement to the last.

## Main definitions

* `Tx`, `Tx.raise`, `Tx.raiseUnless`, `Tx.query`, `Tx.execute`, `Tx.ofExcept`, `Tx.mapError`,
  `Tx.forEach`: bodies and their statements.
* `Tx.atomically`: a body run as a transaction, rolled back when it raises.
* `Tx.Yields`, `Tx.Raises`: what a body does from a given state; `Tx.Keeps`: a part of the state
  that it leaves alone; `Tx.Commutes`: a write that it does not see.
* `Tx.Ends`: a body that returns with one condition or raises with another one.

## Main results

* `Tx.yields_bind`, `Tx.raises_bind`: sequential composition.
* `Tx.keeps_bind`: reading bodies compose.
* `Tx.Ends.bind`, `Tx.ends_forEach`: the rules for the two outcomes of a body.
* `Tx.yields_atomically`, `Tx.atomically_snd_of_raises`: commit and rollback.
* `Tx.yields_forEach_invariant`, `Tx.exists_yields_forEach`: the rules of a loop.
-/

namespace OpenRath

instance instDecidableEqExcept {ε α : Type} [DecidableEq ε] [DecidableEq α] :
    DecidableEq (Except ε α)
  | .error e, .error e' => decidable_of_iff (e = e') ⟨congrArg Except.error, Except.error.inj⟩
  | .ok a, .ok a' => decidable_of_iff (a = a') ⟨congrArg Except.ok, Except.ok.inj⟩
  | .error _, .ok _ => isFalse (by simp only [reduceCtorEq, not_false_eq_true])
  | .ok _, .error _ => isFalse (by simp only [reduceCtorEq, not_false_eq_true])

/-- A transaction body over states `σ` and errors `ε`, returning `α`. -/
def Tx (σ ε α : Type) : Type := σ → Except ε α × σ

namespace Tx

variable {σ ε α β : Type}

/-! ### Statements -/

instance : Monad (Tx σ ε) where
  pure a := fun s => (.ok a, s)
  bind x f := fun s => match x s with
    | (.ok a, s') => f a s'
    | (.error e, s') => (.error e, s')

instance : LawfulMonad (Tx σ ε) := LawfulMonad.mk' _
  (fun x => by
    funext s
    cases hx : x s with
    | mk result s' =>
      cases result with
      | error e => simp [Functor.map, hx]
      | ok a =>
        simp only [Functor.map, hx]
        rfl)
  (fun _ _ => rfl)
  (fun x f g => by
    funext s
    cases hx : x s with
    | mk result s' =>
      cases result with
      | error e => simp [bind, hx]
      | ok a => simp [bind, hx])

/-- Raise an error; the writes made so far stay in the state. -/
def raise (e : ε) : Tx σ ε α := fun s => (.error e, s)

/-- Raise an error unless a condition holds. -/
def raiseUnless (c : Prop) [Decidable c] (e : ε) : Tx σ ε Unit :=
  if c then pure () else raise e

/-- A statement that only reads. -/
def query (f : σ → α) : Tx σ ε α := fun s => (.ok (f s), s)

/-- A statement that writes. -/
def execute (f : σ → σ) : Tx σ ε Unit := fun s => (.ok (), f s)

/-- A statement that writes or raises. -/
def tryExecute (f : σ → Except ε σ) : Tx σ ε Unit := fun s => match f s with
  | .ok s' => (.ok (), s')
  | .error e => (.error e, s)

/-- A body whose errors are results. -/
def attempt {ε' : Type} (x : Tx σ ε α) : Tx σ ε' (Except ε α) := fun s => (.ok (x s).1, (x s).2)

/-- A computation that may raise and touches no state. -/
def ofExcept (x : Except ε α) : Tx σ ε α := fun s => (x, s)

theorem ofExcept_ok_bind (a : α) (f : α → Tx σ ε β) :
    (ofExcept (.ok a) : Tx σ ε α) >>= f = f a := rfl

/-- A body whose errors are replaced by others. -/
def mapError (x : Tx σ ε α) (f : ε → ε) : Tx σ ε α := fun s => match x s with
  | (.ok a, s') => (.ok a, s')
  | (.error e, s') => (.error (f e), s')

/-- A loop over a list, stopped by the first error. -/
def forEach (f : α → Tx σ ε Unit) : List α → Tx σ ε Unit
  | [] => pure ()
  | a :: as => do
    f a
    forEach f as

/-- A body run as a transaction: the state is kept when it returns and restored when it
raises. -/
def atomically (x : Tx σ ε α) : Tx σ ε α := fun s => match x s with
  | (.ok a, s') => (.ok a, s')
  | (.error e, _) => (.error e, s)

/-! ### Results -/

/-- The body `x`, started in `s`, returns `a` and leaves `s'`. -/
def Yields (x : Tx σ ε α) (s : σ) (a : α) (s' : σ) : Prop := x s = (.ok a, s')

/-- The body `x`, started in `s`, raises `e`. -/
def Raises (x : Tx σ ε α) (s : σ) (e : ε) : Prop := (x s).1 = .error e

theorem Yields.fst_eq {x : Tx σ ε α} {s s' : σ} {a : α} (h : x.Yields s a s') :
    (x s).1 = .ok a := by rw [h]

theorem bind_of_ok {x : Tx σ ε α} {f : α → Tx σ ε β} {s s' : σ} {a : α} (h : x s = (.ok a, s')) :
    (x >>= f) s = f a s' := by
  simp only [bind, h]

theorem bind_of_error {x : Tx σ ε α} {f : α → Tx σ ε β} {s s' : σ} {e : ε}
    (h : x s = (.error e, s')) : (x >>= f) s = (.error e, s') := by
  simp only [bind, h]

theorem yields_bind {x : Tx σ ε α} {f : α → Tx σ ε β} {s s'' : σ} {b : β} :
    (x >>= f).Yields s b s'' ↔ ∃ a s', x.Yields s a s' ∧ (f a).Yields s' b s'' := by
  constructor
  · intro h
    rcases hx : x s with ⟨a | a, s'⟩
    · simp only [Yields, bind, hx, Prod.mk.injEq, reduceCtorEq, false_and] at h
    · simp only [Yields, bind, hx] at h
      exact ⟨a, s', hx, h⟩
  · rintro ⟨a, s', hx, hf⟩
    simp only [Yields, bind] at hx hf ⊢
    rw [hx]
    exact hf

theorem raises_bind {x : Tx σ ε α} {f : α → Tx σ ε β} {s : σ} {e : ε} :
    (x >>= f).Raises s e ↔ x.Raises s e ∨ ∃ a s', x.Yields s a s' ∧ (f a).Raises s' e := by
  rcases hx : x s with ⟨a | a, s'⟩
  · simp only [Raises, Yields, bind, hx, Except.error.injEq, Prod.mk.injEq, reduceCtorEq,
      false_and, exists_false, or_false]
  · simp only [Raises, Yields, bind, hx, reduceCtorEq, Prod.mk.injEq, Except.ok.injEq,
      false_or]
    constructor
    · intro h
      exact ⟨a, s', ⟨rfl, rfl⟩, h⟩
    · rintro ⟨_, _, ⟨rfl, rfl⟩, h⟩
      exact h

@[simp] theorem yields_pure {a b : α} {s s' : σ} :
    (pure a : Tx σ ε α).Yields s b s' ↔ a = b ∧ s = s' := by
  simp [Yields, pure]

@[simp] theorem not_raises_pure {a : α} {s : σ} {e : ε} : ¬ (pure a : Tx σ ε α).Raises s e := by
  simp [Raises, pure]

@[simp] theorem not_yields_raise {e : ε} {a : α} {s s' : σ} :
    ¬ (raise e : Tx σ ε α).Yields s a s' := by
  simp [Yields, raise]

@[simp] theorem raises_raise {e e' : ε} {s : σ} :
    (raise e : Tx σ ε α).Raises s e' ↔ e = e' := by
  simp [Raises, raise]

@[simp] theorem yields_raiseUnless {c : Prop} [Decidable c] {e : ε} {u : Unit} {s s' : σ} :
    (raiseUnless c e : Tx σ ε Unit).Yields s u s' ↔ c ∧ s = s' := by
  by_cases h : c <;> simp [raiseUnless, h]

@[simp] theorem raises_raiseUnless {c : Prop} [Decidable c] {e e' : ε} {s : σ} :
    (raiseUnless c e : Tx σ ε Unit).Raises s e' ↔ ¬ c ∧ e = e' := by
  by_cases h : c <;> simp [raiseUnless, h]

@[simp] theorem yields_query {f : σ → α} {a : α} {s s' : σ} :
    (query f : Tx σ ε α).Yields s a s' ↔ f s = a ∧ s = s' := by
  simp [Yields, query]

@[simp] theorem not_raises_query {f : σ → α} {s : σ} {e : ε} :
    ¬ (query f : Tx σ ε α).Raises s e := by
  simp [Raises, query]

@[simp] theorem yields_execute {f : σ → σ} {u : Unit} {s s' : σ} :
    (execute f : Tx σ ε Unit).Yields s u s' ↔ f s = s' := by
  simp [Yields, execute]

@[simp] theorem not_raises_execute {f : σ → σ} {s : σ} {e : ε} :
    ¬ (execute f : Tx σ ε Unit).Raises s e := by
  simp [Raises, execute]

@[simp] theorem yields_ofExcept {x : Except ε α} {a : α} {s s' : σ} :
    (ofExcept x : Tx σ ε α).Yields s a s' ↔ x = .ok a ∧ s = s' := by
  simp [Yields, ofExcept]

@[simp] theorem raises_ofExcept {x : Except ε α} {s : σ} {e : ε} :
    (ofExcept x : Tx σ ε α).Raises s e ↔ x = .error e := by
  simp [Raises, ofExcept]

@[simp] theorem yields_mapError {x : Tx σ ε α} {f : ε → ε} {a : α} {s s' : σ} :
    (x.mapError f).Yields s a s' ↔ x.Yields s a s' := by
  rcases hx : x s with ⟨b | b, t⟩ <;> simp [Yields, mapError, hx]

theorem raises_mapError {x : Tx σ ε α} {f : ε → ε} {s : σ} {e : ε} :
    (x.mapError f).Raises s e ↔ ∃ e', x.Raises s e' ∧ f e' = e := by
  rcases hx : x s with ⟨b | b, t⟩ <;> simp [Raises, mapError, hx]

/-! ### Reading bodies -/

/-- A body that leaves the part `π` of the state as it was whenever it returns. -/
def Keeps {τ : Type} (π : σ → τ) (x : Tx σ ε α) : Prop :=
  ∀ ⦃s a s'⦄, x.Yields s a s' → π s' = π s

section Keeps

variable {τ : Type} {π : σ → τ}

theorem keeps_bind {x : Tx σ ε α} {f : α → Tx σ ε β} (hx : Keeps π x)
    (hf : ∀ a, Keeps π (f a)) : Keeps π (x >>= f) := by
  intro s b s'' h
  obtain ⟨a, s', h₁, h₂⟩ := yields_bind.mp h
  exact (hf a h₂).trans (hx h₁)

theorem keeps_pure (a : α) : Keeps π (pure a : Tx σ ε α) := by
  intro s b s' h
  rw [(yields_pure.mp h).2]

theorem keeps_raise (e : ε) : Keeps π (raise e : Tx σ ε α) :=
  fun _ _ _ h => absurd h not_yields_raise

theorem keeps_raiseUnless (c : Prop) [Decidable c] (e : ε) :
    Keeps π (raiseUnless c e : Tx σ ε Unit) := by
  intro s u s' h
  rw [(yields_raiseUnless.mp h).2]

theorem keeps_query (f : σ → α) : Keeps π (query f : Tx σ ε α) := by
  intro s a s' h
  rw [(yields_query.mp h).2]

theorem keeps_ofExcept (x : Except ε α) : Keeps π (ofExcept x : Tx σ ε α) := by
  intro s a s' h
  rw [(yields_ofExcept.mp h).2]

theorem keeps_execute {f : σ → σ} (h : ∀ s, π (f s) = π s) :
    Keeps π (execute f : Tx σ ε Unit) := by
  intro s u s' hy
  rw [← yields_execute.mp hy, h]

theorem keeps_mapError {x : Tx σ ε α} (hx : Keeps π x) (f : ε → ε) :
    Keeps π (x.mapError f) :=
  fun _ _ _ h => hx (yields_mapError.mp h)

/-- A body that leaves a part of the state alone may run after that part is read. -/
theorem bind_query_comm {f : α → τ → Tx σ ε β} {x : Tx σ ε α} (hx : Keeps π x) :
    (x >>= fun a => query π >>= f a) = query π >>= fun t => x >>= fun a => f a t := by
  funext s
  rcases h : x s with ⟨e | a, s'⟩
  · rw [bind_of_error h, bind_of_ok (rfl : query π s = (.ok (π s), s)), bind_of_error h]
  · have hkeep : π s' = π s := hx h
    rw [bind_of_ok h, bind_of_ok (rfl : query π s = (.ok (π s), s)), bind_of_ok h,
      bind_of_ok (rfl : query π s' = (.ok (π s'), s')), hkeep]

end Keeps

/-! ### Writes that commute with a body -/

/-- A body that returns or raises the same before and after the write `g`, and leaves the write
behind. -/
def Commutes (g : σ → σ) (x : Tx σ ε α) : Prop := ∀ s, x (g s) = ((x s).1, g (x s).2)

section Commutes

variable {g : σ → σ}

theorem commutes_bind {x : Tx σ ε α} {f : α → Tx σ ε β} (hx : Commutes g x)
    (hf : ∀ a, Commutes g (f a)) : Commutes g (x >>= f) := by
  intro s
  rcases h : x s with ⟨e | a, s'⟩
  · rw [bind_of_error h, bind_of_error (by rw [hx, h] : x (g s) = (_, g s'))]
  · rw [bind_of_ok h, bind_of_ok (by rw [hx, h] : x (g s) = (_, g s')), hf a s']

theorem commutes_pure (a : α) : Commutes g (pure a : Tx σ ε α) := fun _ => rfl

theorem commutes_raise (e : ε) : Commutes g (raise e : Tx σ ε α) := fun _ => rfl

theorem commutes_query {f : σ → α} (h : ∀ s, f (g s) = f s) :
    Commutes g (query f : Tx σ ε α) := by
  intro s
  rw [query, query, h]

theorem commutes_execute {f : σ → σ} (h : ∀ s, f (g s) = g (f s)) :
    Commutes g (execute f : Tx σ ε Unit) := by
  intro s
  rw [execute, execute, h]

end Commutes

/-! ### Loops -/

@[simp] theorem yields_forEach_nil {f : α → Tx σ ε Unit} {u : Unit} {s s' : σ} :
    (forEach f []).Yields s u s' ↔ s = s' := by
  simp [forEach]

theorem yields_forEach_cons {f : α → Tx σ ε Unit} {a : α} {as : List α} {u : Unit}
    {s s' : σ} : (forEach f (a :: as)).Yields s u s' ↔
      ∃ s₁, (f a).Yields s () s₁ ∧ (forEach f as).Yields s₁ () s' := by
  rw [forEach, yields_bind]
  constructor
  · rintro ⟨_, s₁, h, h'⟩
    exact ⟨s₁, h, h'⟩
  · rintro ⟨s₁, h, h'⟩
    exact ⟨(), s₁, h, h'⟩

/-- **Invariant rule.** A relation between the part of the list already processed and the state
that holds at the start and is kept by every iteration holds at the end of the loop. -/
theorem yields_forEach_invariant {f : α → Tx σ ε Unit} {as : List α} {s s' : σ} {u : Unit}
    (I : List α → σ → Prop) (h0 : I [] s)
    (hstep : ∀ pre a post t t', as = pre ++ a :: post → I pre t → (f a).Yields t () t' →
      I (pre ++ [a]) t')
    (h : (forEach f as).Yields s u s') : I as s' := by
  suffices H : ∀ pre post t, as = pre ++ post → I pre t → (forEach f post).Yields t () s' →
      I as s' from H [] as s rfl h0 h
  intro pre post
  induction post generalizing pre with
  | nil =>
    intro t has hI ht
    rw [yields_forEach_nil] at ht
    rw [has, List.append_nil, ← ht]
    exact hI
  | cons a post ih =>
    intro t has hI ht
    obtain ⟨t₁, ha, hpost⟩ := yields_forEach_cons.mp ht
    exact ih (pre ++ [a]) t₁ (by rw [has, List.append_assoc]; rfl)
      (hstep pre a post t t₁ has hI ha) hpost

/-- **Progress rule.** A loop whose every iteration returns, from every state that stands in the
relation to the part of the list already processed, and keeps that relation, returns. -/
theorem exists_yields_forEach {f : α → Tx σ ε Unit} {as : List α} {s : σ}
    (I : List α → σ → Prop) (h0 : I [] s)
    (hstep : ∀ pre a post t, as = pre ++ a :: post → I pre t →
      ∃ t', (f a).Yields t () t' ∧ I (pre ++ [a]) t') :
    ∃ s', (forEach f as).Yields s () s' := by
  suffices H : ∀ pre post t, as = pre ++ post → I pre t →
      ∃ s', (forEach f post).Yields t () s' from H [] as s rfl h0
  intro pre post
  induction post generalizing pre with
  | nil =>
    intro t _ _
    exact ⟨t, yields_forEach_nil.mpr rfl⟩
  | cons a post ih =>
    intro t has hI
    obtain ⟨t₁, ha, hI₁⟩ := hstep pre a post t has hI
    obtain ⟨s', hpost⟩ := ih (pre ++ [a]) t₁ (by rw [has, List.append_assoc]; rfl) hI₁
    exact ⟨s', yields_forEach_cons.mpr ⟨t₁, ha, hpost⟩⟩

/-- A loop leaves a part of the state alone if its body does. -/
theorem keeps_forEach {τ : Type} {π : σ → τ} {f : α → Tx σ ε Unit} (h : ∀ a, Keeps π (f a))
    (as : List α) : Keeps π (forEach f as) := by
  induction as with
  | nil => exact keeps_pure _
  | cons a as ih => exact keeps_bind (h a) fun _ => ih

/-! ### Outcomes -/

/-- From every state with `P`, the body returns with `Q` or raises with `E`. -/
structure Ends (P : σ → Prop) (x : Tx σ ε α) (Q : α → σ → Prop) (E : ε → σ → Prop) : Prop where
  ends : ∀ s, P s → match x s with
    | (.ok a, s') => Q a s'
    | (.error e, s') => E e s'

section Ends

variable {P P' : σ → Prop} {Q Q' : α → σ → Prop} {E E' : ε → σ → Prop}

theorem Ends.of_eq_ok {x : Tx σ ε α} (h : Ends P x Q E) {s s' : σ} {a : α} (hs : P s)
    (hx : x s = (.ok a, s')) : Q a s' := by
  have hends := h.ends s hs
  rwa [hx] at hends

theorem Ends.of_eq_error {x : Tx σ ε α} (h : Ends P x Q E) {s s' : σ} {e : ε} (hs : P s)
    (hx : x s = (.error e, s')) : E e s' := by
  have hends := h.ends s hs
  rwa [hx] at hends

/-- The states from which a body is started may be taken one by one. -/
theorem ends_of_forall {x : Tx σ ε α} (h : ∀ s, P s → Ends (fun s' => s' = s) x Q E) :
    Ends P x Q E := ⟨fun s hs => (h s hs).ends s rfl⟩

theorem ends_pure {a : α} (h : ∀ s, P s → Q a s) : Ends P (pure a : Tx σ ε α) Q E := ⟨h⟩

theorem ends_raise {e : ε} (h : ∀ s, P s → E e s) : Ends P (raise e : Tx σ ε α) Q E := ⟨h⟩

theorem ends_query {f : σ → α} (h : ∀ s, P s → Q (f s) s) : Ends P (query f : Tx σ ε α) Q E := ⟨h⟩

theorem ends_ofExcept {r : Except ε α} (hok : ∀ a, r = .ok a → ∀ s, P s → Q a s)
    (herror : ∀ e, r = .error e → ∀ s, P s → E e s) : Ends P (ofExcept r) Q E := by
  refine ⟨fun s hs => ?_⟩
  cases r with
  | ok a => exact hok a rfl s hs
  | error e => exact herror e rfl s hs

theorem ends_tryExecute {f : σ → Except ε σ} {R : σ → Prop}
    (hok : ∀ s s', P s → f s = .ok s' → R s') (herror : ∀ s e, P s → f s = .error e → E e s) :
    Ends P (tryExecute f) (fun _ => R) E := by
  refine ⟨fun s hs => ?_⟩
  rw [tryExecute]
  cases hf : f s with
  | ok s' => exact hok s s' hs hf
  | error e => exact herror s e hs hf

/-- Sequential composition. -/
theorem Ends.bind {x : Tx σ ε α} {f : α → Tx σ ε β} {R : β → σ → Prop} (h : Ends P x Q E)
    (hf : ∀ a, Ends (Q a) (f a) R E) : Ends P (x >>= f) R E := by
  refine ⟨fun s hs => ?_⟩
  rcases hx : x s with ⟨e | a, s'⟩
  · rw [bind_of_error hx]
    exact h.of_eq_error hs hx
  · rw [bind_of_ok hx]
    exact (hf a).ends s' (h.of_eq_ok hs hx)

theorem Ends.consequence {x : Tx σ ε α} (h : Ends P x Q E) (hP : ∀ s, P' s → P s)
    (hQ : ∀ a s, Q a s → Q' a s) (hE : ∀ e s, E e s → E' e s) : Ends P' x Q' E' := by
  refine ⟨fun s hs => ?_⟩
  have hends := h.ends s (hP s hs)
  rcases hx : x s with ⟨e | a, s'⟩
  · rw [hx] at hends
    exact hE e s' hends
  · rw [hx] at hends
    exact hQ a s' hends

theorem ends_ite {c : Prop} [Decidable c] {x y : Tx σ ε α} (hx : c → Ends P x Q E)
    (hy : ¬ c → Ends P y Q E) : Ends P (if c then x else y) Q E := by
  split_ifs with h
  · exact hx h
  · exact hy h

theorem Ends.attempt {ε' : Type} {x : Tx σ ε α} (h : Ends P x Q E) {Q' : Except ε α → σ → Prop}
    {E' : ε' → σ → Prop} (hok : ∀ a s, Q a s → Q' (.ok a) s)
    (herror : ∀ e s, E e s → Q' (.error e) s) : Ends P x.attempt Q' E' := by
  refine ⟨fun s hs => ?_⟩
  have hends := h.ends s hs
  rw [Tx.attempt]
  rcases hx : x s with ⟨e | a, s'⟩
  · rw [hx] at hends
    exact herror e s' hends
  · rw [hx] at hends
    exact hok a s' hends

/-- A loop keeps what every iteration keeps. -/
theorem ends_forEach {f : α → Tx σ ε Unit} {as : List α}
    (h : ∀ a ∈ as, Ends P (f a) (fun _ => P) E) :
    Ends P (forEach f as) (fun _ => P) E := by
  induction as with
  | nil => exact ends_pure fun _ hs => hs
  | cons a as ih =>
    exact (h a List.mem_cons_self).bind fun _ => ih fun b hb => h b (List.mem_cons_of_mem _ hb)

end Ends

/-! ### Transactions -/

@[simp] theorem yields_atomically {x : Tx σ ε α} {s s' : σ} {a : α} :
    x.atomically.Yields s a s' ↔ x.Yields s a s' := by
  rcases hx : x s with ⟨b | b, t⟩ <;> simp [Yields, atomically, hx]

@[simp] theorem raises_atomically {x : Tx σ ε α} {s : σ} {e : ε} :
    x.atomically.Raises s e ↔ x.Raises s e := by
  rcases hx : x s with ⟨b | b, t⟩ <;> simp [Raises, atomically, hx]

/-- A transaction that raises leaves the state it found. -/
theorem atomically_snd_of_raises {x : Tx σ ε α} {s : σ} {e : ε} (h : x.Raises s e) :
    (x.atomically s).2 = s := by
  rcases hx : x s with ⟨b | b, t⟩
  · simp [atomically, hx]
  · simp [Raises, hx] at h

end Tx

end OpenRath
