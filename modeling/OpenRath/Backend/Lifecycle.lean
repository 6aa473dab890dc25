import OpenRath.Backend.Sandboxes
import OpenRath.Memory.Handles

/-!
# Threads that share an object

The count of the references to a sandbox (`src/rath/backend/abc.py`) or a memory store
(`src/rath/memory/abc.py`) is changed under a lock. The thread that takes it to zero closes the
object after it has left the lock, and until then the object can be acquired.

A thread has a number of references, and may be about to close the object. It releases only what it
has acquired.

## Main definitions

* `Holder`, `SharedObject`: the threads, and the object that they share.
* `SharedObject.step`: acquiring, the part of releasing under the lock, and closing.
* `SharedObject.Kept`: the object is open while a thread has a reference to it.
* `SharedObject.Undisturbed`: the object is not acquired while a thread is about to close it.

## Main results

* `SharedObject.kept_of_undisturbed`.
* `SharedObject.not_kept_of_disturbed`: the condition is needed.
-/

namespace OpenRath

/-- A thread, with the number of its references. -/
structure Holder where
  held : ℕ
  /-- It has left the lock and is about to close the object. -/
  closing : Bool
deriving DecidableEq

/-- An object and the threads that share it. -/
structure SharedObject (O : Type) where
  object : O
  threads : List Holder

/-- The atomic steps of a thread. -/
inductive SharedObjectEvent
  | acquire (i : ℕ)
  /-- The part of `release` under the lock. -/
  | release (i : ℕ)
  /-- `backend.close`. -/
  | close (i : ℕ)

namespace SharedObject

variable {O : Type}

/-- The references of all threads. -/
def held (s : SharedObject O) : ℕ := (s.threads.map Holder.held).sum

variable [Counted O]

/-- An object that has just been opened, and any number of threads. -/
def start (o : O) (n : ℕ) : SharedObject O :=
  ⟨Counted.setCount o ⟨false, 0⟩, List.replicate n ⟨0, false⟩⟩

section Operations

variable (s : SharedObject O) (i : ℕ) (thread : Holder)

/-- `acquire`, which raises if the object is closed. -/
def acquire : SharedObject O :=
  match Counted.acquire? s.object with
  | none => s
  | some object => ⟨object, s.threads.set i { thread with held := thread.held + 1 }⟩

/-- `release`, up to the end of the lock. -/
def release : SharedObject O :=
  let released := Counted.release s.object
  ⟨released.1, s.threads.set i ⟨thread.held - 1, released.2⟩⟩

/-- `backend.close`. -/
def close : SharedObject O :=
  ⟨if Counted.closed s.object then s.object else Counted.close s.object,
    s.threads.set i { thread with closing := false }⟩

/-- A step of a thread, which does nothing else before it has closed the object. -/
def step : SharedObjectEvent → Option (SharedObject O)
  | .acquire i => s.threads[i]?.bind fun thread =>
    if thread.closing then none else some (s.acquire i thread)
  | .release i => s.threads[i]?.bind fun thread =>
    if thread.closing ∨ thread.held = 0 then none else some (s.release i thread)
  | .close i => s.threads[i]?.bind fun thread =>
    if thread.closing then some (s.close i thread) else none

end Operations

/-- A thread that has a reference finds the object open. -/
def Kept (_ : SharedObject O) (_ : SharedObjectEvent) (s' : SharedObject O) : Prop :=
  ∀ thread ∈ s'.threads, 0 < thread.held → Counted.closed s'.object = false

/-- An open object is not acquired while a thread is about to close it. -/
def Undisturbed (s : SharedObject O) (e : SharedObjectEvent) (_ : SharedObject O) : Prop :=
  ∀ i, e = .acquire i → Counted.closed s.object = false →
    ∀ thread ∈ s.threads, thread.closing = false

/-! ### The references of the threads -/

/-- The references to an open object are counted, and no thread has one to an object that is closed
or about to be closed. -/
structure Inv (s : SharedObject O) : Prop where
  counted : Counted.closed s.object = false → Counted.refcount s.object = s.held
  closing : (∃ thread ∈ s.threads, thread.closing = true) → s.held = 0
  closed : Counted.closed s.object = true → s.held = 0

variable {s s' : SharedObject O} {i : ℕ} {thread : Holder}

theorem inv_start (o : O) (n : ℕ) : Inv (start o n) := by
  have hheld : (start o n).held = 0 := by
    rw [held, start, List.map_replicate, List.sum_replicate]
    rfl
  refine ⟨fun _ => ?_, fun _ => hheld, fun _ => hheld⟩
  rw [hheld]
  exact Counted.refcount_setCount _ _

omit [Counted O] in
theorem held_set (hi : s.threads[i]? = some thread) (o : O) (thread' : Holder) :
    held ⟨o, s.threads.set i thread'⟩ + thread.held = s.held + thread'.held :=
  sum_map_set_add Holder.held hi

omit [Counted O] in
theorem held_pos (hthread : thread ∈ s.threads) (hheld : 0 < thread.held) : 0 < s.held :=
  hheld.trans_le (le_sum_map Holder.held hthread)

theorem Inv.kept (h : Inv s') (e : SharedObjectEvent) : Kept s e s' := by
  intro thread hthread hheld
  by_contra hclosed
  have hnone := h.closed (eq_true_of_ne_false hclosed)
  have hpos := held_pos hthread hheld
  omega

omit [Counted O] in
/-- A thread that is about to close the object is the one that has changed, or was so before. -/
theorem closing_of_set {thread' : Holder} (o : O)
    (h : ∃ t ∈ (⟨o, s.threads.set i thread'⟩ : SharedObject O).threads, t.closing = true) :
    thread'.closing = true ∨ ∃ t ∈ s.threads, t.closing = true := by
  obtain ⟨t, ht, hclosing⟩ := h
  rcases List.mem_or_eq_of_mem_set ht with ht | rfl
  · exact Or.inr ⟨t, ht, hclosing⟩
  · exact Or.inl hclosing

theorem acquire_of_open (hopen : Counted.closed s.object = false) :
    s.acquire i thread = ⟨Counted.setCount s.object ⟨false, Counted.refcount s.object + 1⟩,
      s.threads.set i { thread with held := thread.held + 1 }⟩ := by
  rw [acquire, Counted.acquire?_of_open hopen]

theorem release_of_open (hopen : Counted.closed s.object = false) :
    s.release i thread = ⟨Counted.setCount s.object ⟨false, Counted.refcount s.object - 1⟩,
      s.threads.set i ⟨thread.held - 1, decide (Counted.refcount s.object - 1 ≤ 0)⟩⟩ := by
  rw [release, Counted.release_of_open hopen]

theorem inv_acquire (hs : Inv s) (hi : s.threads[i]? = some thread)
    (hclosing : thread.closing = false)
    (hundisturbed : Counted.closed s.object = false → ∀ t ∈ s.threads, t.closing = false) :
    Inv (s.acquire i thread) := by
  rcases hclosed : Counted.closed s.object with _ | _
  · have hheld := held_set hi (Counted.setCount s.object ⟨false, Counted.refcount s.object + 1⟩)
      { thread with held := thread.held + 1 }
    rw [acquire_of_open hclosed]
    constructor
    · intro _
      have hcounted := hs.counted hclosed
      rw [Counted.refcount_setCount]
      show Counted.refcount s.object + 1 = _
      simp only at hheld
      omega
    · intro h
      rcases closing_of_set _ h with h | ⟨t, ht, h⟩
      · rw [hclosing] at h
        cases h
      · rw [hundisturbed hclosed t ht] at h
        cases h
    · intro h
      rw [Counted.closed_setCount] at h
      cases h
  · rw [acquire, Counted.acquire?_of_closed hclosed]
    exact hs

theorem inv_release (hs : Inv s) (hi : s.threads[i]? = some thread) (hheld : thread.held ≠ 0) :
    Inv (s.release i thread) := by
  have hpos : 0 < s.held := held_pos (List.mem_of_getElem? hi) (Nat.pos_of_ne_zero hheld)
  have hopen : Counted.closed s.object = false := by
    by_contra hclosed
    have hnone := hs.closed (eq_true_of_ne_false hclosed)
    omega
  have hcounted := hs.counted hopen
  rw [release_of_open hopen]
  have hset := held_set hi (Counted.setCount s.object ⟨false, Counted.refcount s.object - 1⟩)
    ⟨thread.held - 1, decide (Counted.refcount s.object - 1 ≤ 0)⟩
  simp only at hset
  constructor
  · intro _
    rw [Counted.refcount_setCount]
    show Counted.refcount s.object - 1 = _
    omega
  · intro h
    rcases closing_of_set _ h with h | h
    · have hle := of_decide_eq_true h
      omega
    · have hnone := hs.closing h
      omega
  · intro h
    rw [Counted.closed_setCount] at h
    cases h

theorem inv_close (hs : Inv s) (hi : s.threads[i]? = some thread)
    (hclosing : thread.closing = true) :
    Inv (s.close i thread) := by
  have hnone : s.held = 0 := hs.closing ⟨thread, List.mem_of_getElem? hi, hclosing⟩
  have hset := held_set hi (if Counted.closed s.object then s.object else Counted.close s.object)
    { thread with closing := false }
  have hnone' : (s.close i thread).held = 0 := by
    rw [close]
    simp only at hset
    omega
  refine ⟨fun hopen => ?_, fun _ => hnone', fun _ => hnone'⟩
  rw [close] at hopen
  simp only at hopen
  split_ifs at hopen with hclosed
  · rw [hclosed] at hopen
    cases hopen
  · rw [Counted.closed_close] at hopen
    cases hopen

/-- A step that does not acquire an object which is about to be closed. -/
theorem inv_step (hs : Inv s) {e : SharedObjectEvent} (h : s.step e = some s')
    (hundisturbed : Undisturbed s e s') : Inv s' ∧ Kept s e s' := by
  have hs' : Inv s' := by
    cases e with
    | acquire i =>
      obtain ⟨thread, hi, h⟩ := Option.bind_eq_some_iff.mp h
      split_ifs at h with hclosing
      cases h
      exact inv_acquire hs hi (eq_false_of_ne_true hclosing) (hundisturbed i rfl)
    | release i =>
      obtain ⟨thread, hi, h⟩ := Option.bind_eq_some_iff.mp h
      split_ifs at h with hnot
      cases h
      exact inv_release hs hi fun hheld => hnot (Or.inr hheld)
    | close i =>
      obtain ⟨thread, hi, h⟩ := Option.bind_eq_some_iff.mp h
      split_ifs at h with hclosing
      cases h
      exact inv_close hs hi hclosing
  exact ⟨hs', hs'.kept e⟩

/-- **Held references.** In a run of threads on an object that is not acquired while a thread is
about to close it, the object is open for every thread that has a reference to it. -/
theorem kept_of_undisturbed (o : O) (n : ℕ) (events : List SharedObjectEvent)
    (h : Events.Along step Undisturbed (start o n) events) :
    Events.Along step Kept (start o n) events := by
  have hstep : ∀ (s : SharedObject O) e s', Inv s → step s e = some s' → Undisturbed s e s' →
      Inv s' ∧ Kept s e s' := fun _ _ _ hs hstep hundisturbed => inv_step hs hstep hundisturbed
  exact Events.along_of_invariant hstep (inv_start o n) h

/-- Once an object has been acquired while a thread is about to close it, the thread closes it under
the one that has acquired it. -/
theorem not_kept_of_disturbed {j : ℕ} {closing : Holder} (hij : i ≠ j)
    (hi : s.threads[i]? = some thread) (hj : s.threads[j]? = some closing)
    (hclosing : closing.closing = true) (hopen : Counted.closed s.object = false) :
    (s.acquire i thread).step (.close j) = some ((s.acquire i thread).close j closing) ∧
      ¬ Kept (s.acquire i thread) (.close j) ((s.acquire i thread).close j closing) := by
  rw [acquire_of_open hopen]
  have hi' : i < s.threads.length := (List.getElem?_eq_some_iff.mp hi).1
  have hj' : (s.threads.set i { thread with held := thread.held + 1 })[j]? = some closing :=
    (List.getElem?_set_ne hij).trans hj
  refine ⟨?_, fun hkept => ?_⟩
  · rw [step, hj', Option.bind_some, if_pos hclosing]
  · have hmem : { thread with held := thread.held + 1 } ∈
        ((s.threads.set i { thread with held := thread.held + 1 }).set j
          { closing with closing := false }) := by
      refine List.mem_of_getElem? (i := i) ?_
      rw [List.getElem?_set_ne (Ne.symm hij), List.getElem?_set_self hi']
    have hkeptopen := hkept _ hmem (Nat.succ_pos _)
    rw [close, Counted.closed_setCount] at hkeptopen
    simp only [Bool.false_eq_true, if_false, Counted.closed_close] at hkeptopen
    cases hkeptopen

/-! ### An object that is acquired while it is about to be closed -/

/-- A thread gives up the last reference, another one acquires the object, and the first one closes
it. -/
def reacquired : List SharedObjectEvent := [.acquire 0, .release 0, .acquire 1, .close 0]

/-- The second thread has a reference to a sandbox, or to a store, that is closed. -/
theorem not_kept_reacquired :
    ¬ Events.Along step Kept
      (start (⟨"trusted-host", "/tmp/rath-local-1", none, false, 0⟩ : BackendSandbox String) 2)
      reacquired ∧
    ¬ Events.Along step Kept (start (⟨"/data", [], false, 0⟩ : MemoryStore String) 2)
      reacquired := by
  constructor <;> intro h
  · have hlast := ((((h _ rfl).2 _ rfl).2 _ rfl).2 _ rfl).1
    cases hlast ⟨1, false⟩ (List.mem_cons_of_mem _ List.mem_cons_self) Nat.one_pos
  · have hlast := ((((h _ rfl).2 _ rfl).2 _ rfl).2 _ rfl).1
    cases hlast ⟨1, false⟩ (List.mem_cons_of_mem _ List.mem_cons_self) Nat.one_pos

/-- A sandbox, and a store, that two threads have acquired and one has released. -/
theorem kept_shared :
    Events.Along step Kept
      (start (⟨"trusted-host", "/tmp/rath-local-1", none, false, 0⟩ : BackendSandbox String) 2)
      [.acquire 0, .acquire 1, .release 0] ∧
    Events.Along step Kept (start (⟨"/data", [], false, 0⟩ : MemoryStore String) 2)
      [.acquire 0, .acquire 1, .release 0] := by
  constructor
  · refine kept_of_undisturbed _ 2 _ fun s₁ h₁ => ⟨fun _ _ _ => by decide, ?_⟩
    cases h₁
    refine fun s₂ h₂ => ⟨fun _ _ _ => by decide, ?_⟩
    cases h₂
    exact fun s₃ h₃ => ⟨fun _ he => SharedObjectEvent.noConfusion he, trivial⟩
  · refine kept_of_undisturbed _ 2 _ fun s₁ h₁ => ⟨fun _ _ _ => by decide, ?_⟩
    cases h₁
    refine fun s₂ h₂ => ⟨fun _ _ _ => by decide, ?_⟩
    cases h₂
    exact fun s₃ h₃ => ⟨fun _ he => SharedObjectEvent.noConfusion he, trivial⟩

end SharedObject

end OpenRath
