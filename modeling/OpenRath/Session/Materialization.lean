import OpenRath.Session.Persistence.Serialize

/-!
# Lazily materialised sessions

`run_session_loop` returns a session while the coroutine that fills it is still at work
(`Session.chunk_table`, `cumulative_usage`, `text` and `synchronize` in
`src/rath/session/session.py`). The coroutine publishes rows and usage in the session as it goes. A
read waits until it is over, and the first read to get hold of the lock takes its result and drops
the pending future. Any number of threads read at any time, one access to the session after the
other.

What the coroutine publishes is arbitrary. A read by a tool that the coroutine itself has called
does not wait.

## Main definitions

* `LazySession`, `ReadPhase.advance`: the accesses of a read.
* `Materialization`, `Materialization.step`: a session with its reads.
* `Materialization.Raises`: no read gets past the failure of the coroutine.

## Main results

* `Materialization.raises_iff`: this is so with one read, and with one read only.
-/

namespace OpenRath

/-! ### Sessions and reads -/

/-- What has become of the coroutine. -/
inductive LazyResult
  | running
  | failed (e : Exn)
  | returned (rows : List ChunkRow) (usage : Option RathLLMTokenUsage)

/-- A session, with the future that it waits for. -/
structure LazySession where
  chunkTable : List ChunkRow
  cumulativeUsage : Option RathLLMTokenUsage
  /-- `_pending` is still there. -/
  pending : Bool
  consumed : Bool
  future : LazyResult
  /-- The read that has `_sync_lock`. -/
  lock : Option ℕ

/-- What can be read. -/
inductive SessionField
  | chunkTable
  | cumulativeUsage
  | text
deriving DecidableEq

/-- What a read returns. -/
inductive FieldValue
  | chunkTable (rows : List ChunkRow)
  | cumulativeUsage (usage : Option RathLLMTokenUsage)
  | text (content : Option String)
deriving DecidableEq

/-- The text of a row, if it is an answer with one. -/
def ChunkRow.answer? (texts : Texts) (row : ChunkRow) : Option String :=
  if row.kind = .assistant then
    match row.payload.getD "content" with
    | .null => none
    | content => if isBlank (texts.text content) then none else some (texts.text content)
  else none

/-- A field of a session with rows and a usage. -/
def SessionField.value (texts : Texts) (rows : List ChunkRow) (usage : Option RathLLMTokenUsage) :
    SessionField → FieldValue
  | chunkTable => .chunkTable rows
  | cumulativeUsage => .cumulativeUsage usage
  | text => .text (rows.reverse.findSome? (ChunkRow.answer? texts))

/-- Where a read stands. -/
inductive ReadPhase
  | begun
  /-- In `synchronize`, before the first look at `_pending`. -/
  | synchronizing
  | waiting
  /-- With the lock, before the second look at `_pending`. -/
  | locked
  /-- With the lock, waiting for the coroutine. -/
  | awaiting
  /-- With the lock, the result being stored and `_pending` still there. -/
  | stored
  /-- With the lock, about to give it back. -/
  | leaving
  /-- With the lock, the exception on its way. -/
  | raising (e : Exn)
  /-- About to read the field. -/
  | returning
  | ended (outcome : Except Exn FieldValue)

/-- A read of a field, by a thread that runs a tool of the coroutine or not. -/
structure SessionRead where
  field : SessionField
  inDispatch : Bool
  phase : ReadPhase

section Accesses

variable (texts : Texts)

/-- The next access of the read with a number. A read that waits stays where it is. -/
def SessionRead.advance (i : ℕ) (s : LazySession) (r : SessionRead) : LazySession × ReadPhase :=
  match r.phase with
  | .begun => (s, if s.pending && !r.inDispatch then .synchronizing else .returning)
  | .synchronizing => (s, if s.pending then .waiting else .returning)
  | .waiting =>
    match s.lock with
    | none => ({ s with lock := some i }, .locked)
    | some _ => (s, .waiting)
  | .locked => (s, if s.pending then .awaiting else .leaving)
  | .awaiting =>
    match s.future with
    | .running => (s, .awaiting)
    | .failed e => ({ s with consumed := true, pending := false }, .raising e)
    | .returned rows usage =>
      ({ s with consumed := true, chunkTable := rows, cumulativeUsage := usage }, .stored)
  | .stored => ({ s with pending := false }, .leaving)
  | .leaving => ({ s with lock := none }, .returning)
  | .raising e => ({ s with lock := none }, .ended (.error e))
  | .returning => (s, .ended (.ok (r.field.value texts s.chunkTable s.cumulativeUsage)))
  | .ended outcome => (s, .ended outcome)

/-- A session with all reads that have begun. -/
structure Materialization where
  session : LazySession
  reads : List SessionRead

/-- What happens. -/
inductive MaterializationEvent
  /-- The coroutine publishes rows and usage. -/
  | publish (rows : List ChunkRow) (usage : Option RathLLMTokenUsage)
  /-- The coroutine raises. -/
  | fail (e : Exn)
  /-- The coroutine returns what it has published. -/
  | finish
  | begin (field : SessionField) (inDispatch : Bool)
  /-- The next access of a read. -/
  | access (i : ℕ)

namespace Materialization

/-- The session when `run_session_loop` returns. -/
def start (rows : List ChunkRow) : Materialization :=
  ⟨⟨rows, none, true, false, .running, none⟩, []⟩

/-- The effect of an event. A coroutine that is over does nothing any more. -/
def step (s : Materialization) : MaterializationEvent → Materialization
  | .publish rows usage =>
    match s.session.future with
    | .running =>
      { s with session := { s.session with chunkTable := rows, cumulativeUsage := usage } }
    | _ => s
  | .fail e =>
    match s.session.future with
    | .running => { s with session := { s.session with future := .failed e } }
    | _ => s
  | .finish =>
    match s.session.future with
    | .running =>
      { s with session := { s.session with
          future := .returned s.session.chunkTable s.session.cumulativeUsage } }
    | _ => s
  | .begin field inDispatch => { s with reads := s.reads ++ [⟨field, inDispatch, .begun⟩] }
  | .access i =>
    match s.reads[i]? with
    | none => s
    | some r =>
      let (session, phase) := r.advance texts i s.session
      { session := session, reads := s.reads.set i { r with phase := phase } }

/-- The session after some events. -/
def run (rows : List ChunkRow) (events : List MaterializationEvent) : Materialization :=
  events.foldl (step texts) (start rows)

/-- The reads that do not come from a tool of the coroutine. -/
def outside (s : Materialization) : List SessionRead := s.reads.filter fun r => !r.inDispatch

/-- No read gets past the failure of the coroutine: those that are over have raised it. -/
def Raises (s : Materialization) (e : Exn) : Prop :=
  ∀ r ∈ s.outside, ∀ outcome, r.phase = .ended outcome → outcome = .error e

/-- All reads are over. -/
def Settled (s : Materialization) : Prop := ∀ r ∈ s.outside, ∃ outcome, r.phase = .ended outcome

end Materialization

end Accesses

/-! ### What holds of a read where it stands -/

namespace LazySession

/-- The coroutine is over when the future is dropped, and the session then has its result. -/
def Resolved (s : LazySession) : Prop :=
  s.pending = false → s.future ≠ .running ∧
    ∀ rows usage, s.future = .returned rows usage → s.chunkTable = rows ∧ s.cumulativeUsage = usage

/-- The future of a failed coroutine was dropped. -/
def spent (s : LazySession) : Bool :=
  match s.future with
  | .failed _ => !s.pending
  | _ => false

end LazySession

namespace SessionRead

/-- The read has raised, or is about to. -/
def raised (r : SessionRead) : Bool :=
  match r.phase with
  | .raising _ | .ended (.error _) => true
  | _ => false

/-- The read has the lock. -/
def holds (r : SessionRead) : Bool :=
  match r.phase with
  | .locked | .awaiting | .stored | .leaving | .raising _ => true
  | _ => false

/-- What holds of a read and of its session in a phase. -/
def Fits (texts : Texts) (s : LazySession) (r : SessionRead) : Prop :=
  match r.phase with
  | .begun => True
  | .synchronizing | .waiting | .locked => r.inDispatch = false
  | .awaiting => r.inDispatch = false ∧ s.pending = true
  | .stored => r.inDispatch = false ∧ s.pending = true ∧
      s.future = .returned s.chunkTable s.cumulativeUsage
  | .leaving => r.inDispatch = false ∧ s.pending = false
  | .raising e | .ended (.error e) => r.inDispatch = false ∧ s.future = .failed e
  | .returning => r.inDispatch = true ∨ s.pending = false
  | .ended (.ok v) => r.inDispatch = true ∨ s.pending = false ∧
      ∀ rows usage, s.future = .returned rows usage → v = r.field.value texts rows usage

variable {texts : Texts} {s s' : LazySession} {r : SessionRead}

/-- A read without the lock does not mind that the future is dropped. -/
theorem Fits.of_not_holds (h : r.Fits texts s) (hholds : r.holds = false)
    (hfuture : s'.future = s.future) (hpending : s.pending = false → s'.pending = false) :
    r.Fits texts s' := by
  rcases hphase : r.phase with _ | _ | _ | _ | _ | _ | _ | e | _ | (e | v) <;>
    simp only [Fits, holds, hphase, hfuture, Bool.true_eq_false] at h hholds ⊢
  all_goals first | exact h | exact h.imp_right hpending | exact h.imp_right fun h =>
    ⟨hpending h.1, h.2⟩

/-- Nor does it mind what the coroutine does. -/
theorem Fits.of_running (h : r.Fits texts s) (hrunning : s.future = .running)
    (hpending : s.pending = true) (hsame : s'.pending = s.pending) : r.Fits texts s' := by
  rcases hphase : r.phase with _ | _ | _ | _ | _ | _ | _ | e | _ | (e | v) <;>
    simp only [Fits, hphase, hrunning, hpending, hsame] at h ⊢
  all_goals simp_all

/-- What the next access of a read does to it and to the session. -/
structure Advances (texts : Texts) (i : ℕ) (s : LazySession) (r : SessionRead) (s' : LazySession)
    (r' : SessionRead) : Prop where
  same : r'.field = r.field ∧ r'.inDispatch = r.inDispatch
  fits : r'.Fits texts s'
  future : s'.future = s.future
  pending : s.pending = false → s'.pending = false
  /-- Without the lock nothing but the lock is touched. -/
  untouched : r.holds = false → s' = { s with lock := s'.lock }
  lock : r'.holds = true ↔ s'.lock = some i
  others : ∀ j, j ≠ i → (s'.lock = some j ↔ s.lock = some j)
  /-- The read raises when it drops the future of a failed coroutine. -/
  raised : r'.raised.toNat + s.spent.toNat = r.raised.toNat + s'.spent.toNat
  resolved : s'.Resolved

/-- An access that leaves the session as it is. -/
theorem Advances.of_phase {i : ℕ} {p : ReadPhase} (hlock : r.holds = true ↔ s.lock = some i)
    (hresolved : s.Resolved) (hfits : { r with phase := p }.Fits texts s)
    (hholds : { r with phase := p }.holds = r.holds)
    (hraised : { r with phase := p }.raised = r.raised) :
    Advances texts i s r s { r with phase := p } where
  same := ⟨rfl, rfl⟩
  fits := hfits
  future := rfl
  pending := id
  untouched _ := rfl
  lock := by rw [hholds, hlock]
  others _ _ := Iff.rfl
  raised := congrArg (fun b : Bool => b.toNat + s.spent.toNat) hraised
  resolved := hresolved

/-- An access that takes the lock or gives it back. -/
theorem Advances.of_lock {i : ℕ} {p : ReadPhase} {lock : Option ℕ}
    (hresolved : s.Resolved) (hfits : { r with phase := p }.Fits texts s)
    (hholds : { r with phase := p }.holds = true ↔ lock = some i)
    (hothers : ∀ j, j ≠ i → (lock = some j ↔ s.lock = some j))
    (hraised : { r with phase := p }.raised = r.raised) :
    Advances texts i s r { s with lock := lock } { r with phase := p } where
  same := ⟨rfl, rfl⟩
  fits := hfits
  future := rfl
  pending := id
  untouched _ := rfl
  lock := hholds
  others := hothers
  raised := congrArg (fun b : Bool => b.toNat + s.spent.toNat) hraised
  resolved := hresolved

/-- An access that looks at something and leaves the session as it is. -/
theorem Advances.of_test {i : ℕ} {c : Bool} {p q : ReadPhase}
    (hlock : r.holds = true ↔ s.lock = some i) (hresolved : s.Resolved)
    (hyes : c = true → { r with phase := p }.Fits texts s)
    (hno : c = false → { r with phase := q }.Fits texts s)
    (hholds : { r with phase := p }.holds = r.holds ∧ { r with phase := q }.holds = r.holds)
    (hraised : { r with phase := p }.raised = r.raised ∧ { r with phase := q }.raised = r.raised) :
    Advances texts i s r s { r with phase := if c then p else q } := by
  cases c with
  | true => exact Advances.of_phase hlock hresolved (hyes rfl) hholds.1 hraised.1
  | false => exact Advances.of_phase hlock hresolved (hno rfl) hholds.2 hraised.2

/-- The access with which a read, that has the lock, asks the future. -/
theorem advances_awaiting {i : ℕ} (hphase : r.phase = .awaiting) (hfits : r.Fits texts s)
    (hlock : r.holds = true ↔ s.lock = some i) (hresolved : s.Resolved) :
    Advances texts i s r (r.advance texts i s).1 { r with phase := (r.advance texts i s).2 } := by
  obtain ⟨field, inDispatch, phase⟩ := r
  obtain rfl : phase = .awaiting := hphase
  rcases hfuture : s.future with _ | e | ⟨rows, usage⟩
  · simp only [advance, hfuture]
    exact Advances.of_phase hlock hresolved hfits rfl rfl
  · simp only [advance, hfuture]
    exact
      { same := ⟨rfl, rfl⟩
        fits := ⟨hfits.1, rfl⟩
        future := hfuture.symm
        pending := fun _ => rfl
        untouched := fun h => nomatch h
        lock := hlock
        others := fun _ _ => Iff.rfl
        -- The future of a failed coroutine is dropped here, and this read raises for it.
        raised := by simp [LazySession.spent, raised, hfuture, hfits.2]
        resolved := fun _ => by simp }
  · simp only [advance, hfuture]
    exact
      { same := ⟨rfl, rfl⟩
        fits := ⟨hfits.1, hfits.2, rfl⟩
        future := hfuture.symm
        pending := id
        untouched := fun h => nomatch h
        lock := hlock
        others := fun _ _ => Iff.rfl
        raised := by simp [LazySession.spent, raised, hfuture]
        resolved := fun h => absurd (hfits.2.symm.trans h) (by simp) }

/-- The access with which it drops the future once the result is in the session. -/
theorem advances_stored {i : ℕ} (hphase : r.phase = .stored) (hfits : r.Fits texts s)
    (hlock : r.holds = true ↔ s.lock = some i) :
    Advances texts i s r (r.advance texts i s).1 { r with phase := (r.advance texts i s).2 } := by
  obtain ⟨field, inDispatch, phase⟩ := r
  obtain rfl : phase = .stored := hphase
  obtain ⟨hdispatch, hpending, hfuture⟩ := hfits
  exact
    { same := ⟨rfl, rfl⟩
      fits := ⟨hdispatch, rfl⟩
      future := rfl
      pending := fun _ => rfl
      untouched := fun h => nomatch h
      lock := hlock
      others := fun _ _ => Iff.rfl
      raised := by simp [LazySession.spent, raised, advance, hfuture]
      resolved := fun _ => by
        simp only [advance, hfuture]
        exact ⟨by simp, fun rows usage h => by simpa using h⟩ }

/-- The last access of a read: what it returns is what the coroutine has returned. -/
theorem Fits.of_returning (hphase : r.phase = .returning) (hfits : r.Fits texts s)
    (hresolved : s.Resolved) :
    { r with phase := .ended (.ok (r.field.value texts s.chunkTable s.cumulativeUsage)) }.Fits
      texts s := by
  simp only [Fits, hphase] at hfits ⊢
  refine hfits.imp_right fun hpending => ⟨hpending, fun rows usage hreturned => ?_⟩
  obtain ⟨hrows, husage⟩ := (hresolved hpending).2 rows usage hreturned
  rw [hrows, husage]

theorem advances (i : ℕ) (hfits : r.Fits texts s) (hlock : r.holds = true ↔ s.lock = some i)
    (hresolved : s.Resolved) :
    Advances texts i s r (r.advance texts i s).1 { r with phase := (r.advance texts i s).2 } := by
  obtain ⟨field, inDispatch, phase⟩ := r
  -- The lock is with this read in the phases in which it gives it back.
  have hothers : s.lock = some i → ∀ j, j ≠ i → ((none : Option ℕ) = some j ↔ s.lock = some j) :=
    fun h j hj => by simp [h, hj.symm]
  cases phase with
  | begun =>
    refine Advances.of_test hlock hresolved (fun hwaits => ?_) (fun hwaits => ?_) ⟨rfl, rfl⟩
      ⟨rfl, rfl⟩
    · have hwaits' : s.pending = true ∧ inDispatch = false := by simpa using hwaits
      exact hwaits'.2
    · have hwaits' : s.pending = true → inDispatch = true := by simpa using hwaits
      cases hpending : s.pending with
      | true => exact Or.inl (hwaits' hpending)
      | false => exact Or.inr hpending
  | synchronizing =>
    exact Advances.of_test hlock hresolved (fun _ => hfits) Or.inr ⟨rfl, rfl⟩ ⟨rfl, rfl⟩
  | waiting =>
    rcases hfree : s.lock with _ | j
    · simp only [advance, hfree]
      exact Advances.of_lock hresolved hfits (by simp [holds])
        (fun j hj => by simp [hfree, hj.symm]) rfl
    · simp only [advance, hfree]
      exact Advances.of_phase hlock hresolved hfits rfl rfl
  | locked =>
    exact Advances.of_test hlock hresolved (And.intro hfits) (And.intro hfits) ⟨rfl, rfl⟩ ⟨rfl, rfl⟩
  | awaiting => exact advances_awaiting rfl hfits hlock hresolved
  | stored => exact advances_stored rfl hfits hlock
  | leaving =>
    exact Advances.of_lock hresolved (Or.inr hfits.2) (by simp [advance, holds])
      (hothers (hlock.mp rfl)) rfl
  | raising e =>
    exact Advances.of_lock hresolved hfits (by simp [advance, holds]) (hothers (hlock.mp rfl)) rfl
  | returning =>
    exact Advances.of_phase hlock hresolved (Fits.of_returning rfl hfits hresolved) rfl rfl
  | ended outcome => exact Advances.of_phase hlock hresolved hfits rfl rfl

end SessionRead

/-! ### Runs -/

namespace Materialization

variable {texts : Texts} {s : Materialization}

/-- What holds at any time: at most one read has the lock, and exactly one read raises when the
coroutine has failed and its future was dropped. -/
structure Inv (texts : Texts) (s : Materialization) : Prop where
  fits : ∀ r ∈ s.reads, r.Fits texts s.session
  lock : ∀ i r, s.reads[i]? = some r → (r.holds = true ↔ s.session.lock = some i)
  free : ∀ i, s.session.lock = some i → i < s.reads.length
  raised : s.reads.countP SessionRead.raised = s.session.spent.toNat
  resolved : s.session.Resolved

theorem inv_start (rows : List ChunkRow) : (start rows).Inv texts where
  fits := by simp [start]
  lock := by simp [start]
  free := by simp [start]
  raised := rfl
  resolved := fun h => nomatch h

/-- An access of a read keeps the invariant. -/
theorem Inv.access (h : s.Inv texts) (i : ℕ) : (s.step texts (.access i)).Inv texts := by
  rw [step]
  rcases hread : s.reads[i]? with _ | r
  · exact h
  · have hlength : i < s.reads.length := (List.getElem?_eq_some_iff.mp hread).1
    have hadv := SessionRead.advances i (h.fits r (List.mem_of_getElem? hread)) (h.lock i r hread)
      h.resolved
    dsimp only
    set s' := (r.advance texts i s.session).1
    set r' : SessionRead := { r with phase := (r.advance texts i s.session).2 }
    have hothers : ∀ j r₁, j ≠ i → s.reads[j]? = some r₁ → r₁.Fits texts s' := by
      intro j r₁ hj hr₁
      have hfits := h.fits r₁ (List.mem_of_getElem? hr₁)
      by_cases hholds : r.holds = true
      · -- This read has the lock, so that the other one does not.
        refine hfits.of_not_holds ?_ hadv.future hadv.pending
        rw [← Bool.not_eq_true, h.lock j r₁ hr₁, (h.lock i r hread).mp hholds]
        exact fun hsome => hj (Option.some.inj hsome).symm
      · have hsame := hadv.untouched (by simpa using hholds)
        rw [hsame]
        exact hfits
    refine ⟨?_, ?_, ?_, ?_, hadv.resolved⟩
    · intro r₁ hr₁
      obtain ⟨j, hj⟩ := List.mem_iff_getElem?.mp hr₁
      rw [List.getElem?_set] at hj
      split_ifs at hj with hij
      · rw [← Option.some.inj hj]
        exact hadv.fits
      · exact hothers j r₁ (Ne.symm hij) hj
    · intro j r₁ hj
      rw [List.getElem?_set] at hj
      split_ifs at hj with hij
      · rw [← Option.some.inj hj, ← hij]
        exact hadv.lock
      · rw [h.lock j r₁ hj, hadv.others j (Ne.symm hij)]
    · intro j hj
      rw [List.length_set]
      by_cases hij : j = i
      · rwa [hij]
      · exact h.free j ((hadv.others j hij).mp hj)
    · have hcount := h.raised
      have hget : s.reads[i] = r := (List.getElem?_eq_some_iff.mp hread).2
      have hstep := hadv.raised
      rw [List.countP_set hlength, hget]
      have hite : ∀ b : Bool, (if b = true then 1 else 0) = b.toNat := fun b => by cases b <;> rfl
      have hle : r.raised.toNat ≤ s.reads.countP SessionRead.raised := by
        rcases hr : r.raised with _ | _
        · exact Nat.zero_le _
        · exact List.countP_pos_iff.mpr ⟨r, List.mem_of_getElem? hread, hr⟩
      rw [hite, hite]
      show s.reads.countP SessionRead.raised - r.raised.toNat + r'.raised.toNat = s'.spent.toNat
      omega

/-- What the coroutine does while it runs keeps the invariant. -/
theorem Inv.of_running (h : s.Inv texts) (hrunning : s.session.future = .running)
    {session : LazySession} (hpending : session.pending = s.session.pending)
    (hlock : session.lock = s.session.lock) : Inv texts { s with session := session } := by
  have hwaiting : s.session.pending = true := by
    by_contra hdropped
    exact (h.resolved (by simpa using hdropped)).1 hrunning
  have hpending' : session.pending = true := hpending.trans hwaiting
  refine ⟨fun r hr => (h.fits r hr).of_running hrunning hwaiting hpending, ?_, ?_, ?_, ?_⟩
  · intro i r hr
    rw [h.lock i r hr]
    exact hlock ▸ Iff.rfl
  · exact fun i hi => h.free i (hlock ▸ hi)
  · have hspent : s.session.spent = session.spent := by
      simp only [LazySession.spent, hrunning, hpending']
      cases session.future <;> rfl
    exact h.raised.trans (congrArg Bool.toNat hspent)
  · exact fun hdropped => absurd (hpending'.symm.trans hdropped) (by simp)

/-- An event keeps the invariant. -/
theorem Inv.step (h : s.Inv texts) (e : MaterializationEvent) : (s.step texts e).Inv texts := by
  cases e with
  | publish rows usage =>
    rw [Materialization.step]
    split
    · exact h.of_running ‹_› rfl rfl
    · exact h
  | fail e =>
    rw [Materialization.step]
    split
    · exact h.of_running ‹_› rfl rfl
    · exact h
  | finish =>
    rw [Materialization.step]
    split
    · exact h.of_running ‹_› rfl rfl
    · exact h
  | begin field inDispatch =>
    rw [Materialization.step]
    refine ⟨?_, ?_, ?_, ?_, h.resolved⟩
    · intro r hr
      rcases List.mem_append.mp hr with hr | hr
      · exact h.fits r hr
      · rw [List.mem_singleton.mp hr]
        trivial
    · intro i r hr
      rw [List.getElem?_append] at hr
      split_ifs at hr with hlt
      · exact h.lock i r hr
      · have hnone : s.session.lock ≠ some i := fun hlock => hlt (h.free i hlock)
        have hr' : r.holds = false := by
          rw [List.mem_singleton.mp (List.mem_of_getElem? hr)]
          rfl
        simp [hr', hnone]
    · intro i hi
      rw [List.length_append]
      exact Nat.lt_add_right _ (h.free i hi)
    · rw [List.countP_append, h.raised]
      rfl
  | access i => exact h.access i

/-- The invariant holds at any time. -/
theorem inv_run (rows : List ChunkRow) (events : List MaterializationEvent) :
    (run texts rows events).Inv texts := by
  induction events using List.reverseRecOn with
  | nil => exact inv_start rows
  | append_singleton events e ih =>
    rw [run, List.foldl_concat]
    exact ih.step e

/-! ### What reads get -/

theorem mem_outside {r : SessionRead} : r ∈ s.outside ↔ r ∈ s.reads ∧ r.inDispatch = false := by
  rw [outside, List.mem_filter, Bool.not_eq_true']

/-- A read outside of the tools that is over has raised the failure, or came after another one that
has. -/
theorem Inv.over_cases (h : s.Inv texts) {e : Exn} (hfailed : s.session.future = .failed e)
    {r : SessionRead} (hr : r ∈ s.outside) {outcome : Except Exn FieldValue}
    (hover : r.phase = .ended outcome) :
    outcome = .error e ∧ r.raised = true ∨
      r.raised = false ∧ s.reads.countP SessionRead.raised = 1 := by
  obtain ⟨hmem, hdispatch⟩ := mem_outside.mp hr
  have hfits := h.fits r hmem
  rw [SessionRead.Fits, hover] at hfits
  rcases outcome with e' | v
  · exact Or.inl ⟨by rw [LazyResult.failed.inj (hfailed.symm.trans hfits.2)],
      by rw [SessionRead.raised, hover]⟩
  · refine Or.inr ⟨by rw [SessionRead.raised, hover], ?_⟩
    have hpending : s.session.pending = false := by
      simpa [hdispatch] using hfits.imp_right And.left
    rw [h.raised, LazySession.spent, hfailed]
    simp [hpending]

/-- Only reads outside of the tools raise. -/
theorem Inv.countP_outside (h : s.Inv texts) :
    s.outside.countP SessionRead.raised = s.reads.countP SessionRead.raised := by
  rw [outside, List.countP_filter]
  refine List.countP_congr fun r hr => ?_
  have hfits := h.fits r hr
  have hdispatch : r.raised = true → r.inDispatch = false := by
    intro hraised
    rw [SessionRead.raised] at hraised
    rw [SessionRead.Fits] at hfits
    split at hraised <;> simp_all
  simpa using hdispatch

/-- **Reads of a failed session.** When the coroutine has failed, a single read raises the failure.
Of more reads only one does: when all of them are over, all have raised it if and only if there was
at most one. -/
theorem raises_iff (rows : List ChunkRow) (events : List MaterializationEvent) {e : Exn}
    (hfailed : (run texts rows events).session.future = .failed e) :
    ((run texts rows events).outside.length ≤ 1 → (run texts rows events).Raises e) ∧
      ((run texts rows events).Settled →
        ((run texts rows events).Raises e ↔ (run texts rows events).outside.length ≤ 1)) := by
  have hinv : (run texts rows events).Inv texts := inv_run rows events
  set s := run texts rows events
  have hone : s.outside.length ≤ 1 → s.Raises e := by
    intro hlength r hr outcome hover
    rcases hinv.over_cases hfailed hr hover with ⟨heq, -⟩ | ⟨hraised, hcount⟩
    · exact heq
    · -- The read that raises would be another one.
      rw [← hinv.countP_outside] at hcount
      obtain ⟨r', hr', hraised'⟩ := List.countP_pos_iff.mp (hcount ▸ Nat.one_pos)
      obtain ⟨i, hi, rfl⟩ := List.mem_iff_getElem.mp hr
      obtain ⟨j, hj, rfl⟩ := List.mem_iff_getElem.mp hr'
      obtain rfl : i = j := by omega
      exact absurd (hraised.symm.trans hraised') (by simp)
  refine ⟨hone, fun hsettled => ⟨fun hraises => ?_, hone⟩⟩
  have hall : s.outside.countP SessionRead.raised = s.outside.length := by
    refine List.countP_eq_length.mpr fun r hr => ?_
    obtain ⟨outcome, hover⟩ := hsettled r hr
    rw [hraises r hr outcome hover] at hover
    rw [SessionRead.raised, hover]
  rw [← hall, hinv.countP_outside, hinv.raised]
  exact Bool.toNat_le _

end Materialization

namespace Sample

/-- Texts of values that are no texts do not matter in the sample. -/
def plainTexts : Texts := ⟨fun _ => "", fun _ => ""⟩

/-- The row of the user. -/
def userRow : ChunkRow := ⟨.user, [("content", .str "How are you?")]⟩

/-- The row of an answer that was published before the coroutine failed. -/
def publishedRow : ChunkRow := ⟨.assistant, [("content", .str "Let me look.")]⟩

/-- The coroutine publishes an answer and fails. -/
def failure : List MaterializationEvent :=
  [.publish [userRow, publishedRow] none, .fail (.timeout "The model is busy.")]

/-- A read, which is the one with a number, as often as it needs. -/
def readAll (i : ℕ) : List MaterializationEvent :=
  .begin .text false :: List.replicate 6 (.access i)

/-- The only read of a failed session raises. -/
theorem raises_iff_sample :
    ((Materialization.run plainTexts [userRow] (failure ++ readAll 0)).outside.length ≤ 1 →
      (Materialization.run plainTexts [userRow] (failure ++ readAll 0)).Raises
        (.timeout "The model is busy.")) ∧
      ((Materialization.run plainTexts [userRow] (failure ++ readAll 0)).Settled →
        ((Materialization.run plainTexts [userRow] (failure ++ readAll 0)).Raises
          (.timeout "The model is busy.") ↔
        (Materialization.run plainTexts [userRow] (failure ++ readAll 0)).outside.length ≤ 1)) :=
  Materialization.raises_iff [userRow] (failure ++ readAll 0) rfl

/-- The second read of a failed session gets the answer that was published before the failure. -/
theorem second_read_not_raises :
    ¬ (Materialization.run plainTexts [userRow] (failure ++ readAll 0 ++ readAll 1)).Raises
      (.timeout "The model is busy.") := by
  intro h
  have hread : (⟨.text, false, .ended (.ok (.text (some "Let me look.")))⟩ : SessionRead) ∈
      (Materialization.run plainTexts [userRow] (failure ++ readAll 0 ++ readAll 1)).outside := by
    have hreads : (Materialization.run plainTexts [userRow]
        (failure ++ readAll 0 ++ readAll 1)).outside =
      [⟨.text, false, .ended (.error (.timeout "The model is busy."))⟩,
        ⟨.text, false, .ended (.ok (.text (some "Let me look.")))⟩] := rfl
    rw [hreads]
    exact List.mem_cons_of_mem _ List.mem_cons_self
  exact absurd (h _ hread _ rfl) (by simp)

end Sample

end OpenRath
