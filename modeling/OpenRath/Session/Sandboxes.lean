import Mathlib.Logic.Function.Basic
import OpenRath.Adapters.Schema
import OpenRath.Backend.Sandboxes

/-!
# Sandboxes of sessions

A session (`src/rath/session/session.py`) has at most one sandbox, to which it holds a reference.
Sandboxes are bound to sessions, opened when they are first needed, shared with the copies of a
session, and released when they are replaced or dropped. They are also held by `with` blocks and by
those who acquire them.

Of a session the model has its sandbox and what one is opened with; the transcript is what may raise
when it is read. What becomes of closing a sandbox is up to its backend, which may raise after it
has closed the sandbox or without having done so.

## Main definitions

* `BoundSession`, `SessionSandboxes`.
* `SessionSandboxes.bindSandbox`, `to`, `closeSandbox`, `requireSandbox`, `fork`, `merge`, `step`.
* `SessionSandboxes.Counts`: the references are counted, and a sandbox is closed with the last one.
* `SessionSandboxes.Regular`: no closed sandbox replaces an open one, and closing does not raise
  while a session gives up the last reference.

## Main results

* `SessionSandboxes.counts_iff`.
-/

namespace OpenRath

/-- A session, with the place of its sandbox. -/
structure BoundSession (Provider : Type) where
  sandbox : Option ℕ
  sandboxBackend : Option String
  sandboxOpenSpec : Option BackendSandboxSpec
  provider : Option Provider
  cmDepth : ℕ

/-- The sandboxes and the sessions, and by whom else a sandbox is held: by `with` blocks, and by
those who have acquired it. -/
structure SessionSandboxes (Provider : Type) where
  sandboxes : List (BackendSandbox String)
  sessions : List (BoundSession Provider)
  blocks : ℕ → ℕ
  acquires : ℕ → ℕ

/-- What becomes of `Backend.close`. -/
inductive Closing
  | returns
  /-- It raises, and the sandbox may have been closed before. -/
  | raises (closed : Bool) (e : Exn)

/-- The sandbox is closed afterwards. -/
def Closing.closes : Closing → Bool
  | returns => true
  | raises closed _ => closed

/-- What a session is placed on. -/
inductive Placement (Provider : Type)
  | backend (name : String)
  | provider (p : Provider)

/-- What is called on sessions and sandboxes. -/
inductive SessionEvent (Provider : Type)
  | create (backend : Option String) (spec : Option BackendSandboxSpec) (provider : Option Provider)
  | openSandbox (name : String) (spec : Option BackendSandboxSpec) (opened : Except Exn String)
  | bindSandbox (j i : ℕ) (closing : Closing)
  /-- With the provider that is found under its name, if one is given. -/
  | to (j : ℕ) (placement : Placement Provider) (spec : Option (BackendSandboxSpec ⊕ String))
      (named : Option (Except Exn Provider)) (closing : Closing)
  | closeSandbox (j : ℕ) (closing : Closing)
  | requireSandbox (j : ℕ) (opened : Except Exn String)
  | fork (j : ℕ) (transcript : Except Exn Unit)
  | detach (j : ℕ) (transcript : Except Exn Unit)
  | merge (j other : ℕ) (transcripts : Except Exn Unit)
  | enterSession (j : ℕ) (opened : Except Exn String)
  | exitSession (j : ℕ) (closing : Closing)
  | enterSandbox (i : ℕ)
  | exitSandbox (i : ℕ) (closing : Closing)
  | acquire (i : ℕ)
  | release (i : ℕ) (closing : Closing)

namespace SessionSandboxes

variable {Provider : Type}

/-- Neither sandboxes nor sessions. -/
def start : SessionSandboxes Provider := ⟨[], [], fun _ => 0, fun _ => 0⟩

/-- What is called returns, or raises in some state. -/
abbrev Raising (Provider : Type) : Type → Type := Except (Exn × SessionSandboxes Provider)

/-- The state after a call. -/
def stateAfter : Raising Provider (SessionSandboxes Provider) → SessionSandboxes Provider
  | .ok s => s
  | .error (_, s) => s

/-- An exception in the state in which it is raised. -/
def raiseIn {α : Type} (s : SessionSandboxes Provider) : Except Exn α → Raising Provider α
  | .ok a => .ok a
  | .error e => .error (e, s)

section Operations

variable (texts : Texts) (s : SessionSandboxes Provider)

/-- The sandbox is there and not closed. -/
def isOpen (i : ℕ) : Bool := Counted.isOpen s.sandboxes i

/-- The session has a sandbox that is not closed. -/
def holdsOpen (session : BoundSession Provider) : Bool :=
  match session.sandbox with
  | some i => s.isOpen i
  | none => false

/-- A sandbox is replaced by what becomes of it. -/
def setSandbox (i : ℕ) (sandbox : BackendSandbox String) : SessionSandboxes Provider :=
  { s with sandboxes := s.sandboxes.set i sandbox }

/-- A session is replaced by what becomes of it. -/
def setSession (j : ℕ) (session : BoundSession Provider) : SessionSandboxes Provider :=
  { s with sessions := s.sessions.set j session }

/-- `Backend.close` of an open sandbox. -/
def close (i : ℕ) (sandbox : BackendSandbox String) :
    Closing → Raising Provider (SessionSandboxes Provider)
  | .returns => .ok (s.setSandbox i (Counted.close sandbox))
  | .raises closed e =>
    .error (e, if closed then s.setSandbox i (Counted.close sandbox) else s)

/-- `BackendSandbox.acquire`. -/
def acquire (i : ℕ) (sandbox : BackendSandbox String) :
    Raising Provider (SessionSandboxes Provider) :=
  match Counted.acquire? sandbox with
  | none => .error (.other "BackendSandboxClosed"
      s!"backend sandbox {texts.repr (.str sandbox.handle)} is already closed", s)
  | some sandbox => .ok (s.setSandbox i sandbox)

/-- `BackendSandbox.release`. -/
def release (i : ℕ) (closing : Closing) : Raising Provider (SessionSandboxes Provider) :=
  match s.sandboxes[i]? with
  | none => .ok s
  | some sandbox =>
    let released := Counted.release sandbox
    let s := s.setSandbox i released.1
    if released.2 then s.close i released.1 closing else .ok s

/-- The sandbox of a session is released, unless it is closed. -/
def releaseOf (session : BoundSession Provider) (closing : Closing) :
    Raising Provider (SessionSandboxes Provider) :=
  match session.sandbox with
  | some i => if s.isOpen i then s.release i closing else .ok s
  | none => .ok s

/-- `close_sandbox`. -/
def closeSandbox (j : ℕ) (session : BoundSession Provider) (closing : Closing) :
    Raising Provider (SessionSandboxes Provider) := do
  let s ← s.releaseOf session closing
  pure (s.setSession j { session with sandbox := none })

/-- `_coerce_sandbox_open_spec`. -/
def coerceSandboxOpenSpec : Option (BackendSandboxSpec ⊕ String) → Option BackendSandboxSpec
  | none => none
  | some (.inl spec) => some spec
  | some (.inr workingDir) => some ⟨.null, none, none, none, .str workingDir⟩

/-- `Session.to`. -/
def «to» (j : ℕ) (session : BoundSession Provider) (placement : Placement Provider)
    (spec : Option (BackendSandboxSpec ⊕ String)) (named : Option (Except Exn Provider))
    (closing : Closing) : Raising Provider (SessionSandboxes Provider) :=
  match placement, named with
  | .provider _, some _ =>
    .error (.store (.valueError "pass either a Provider positionally or provider=, not both"), s)
  | .provider p, none => .ok (s.setSession j { session with provider := some p })
  | .backend _, some named => do
    let p ← raiseIn s named
    pure (s.setSession j { session with provider := some p })
  | .backend name, none => do
    let s ← s.closeSandbox j session closing
    pure (s.setSession j { session with
      sandbox := none
      sandboxBackend := some name
      sandboxOpenSpec := coerceSandboxOpenSpec spec })

/-- A session without a backend needs one. -/
def noBackend : Exn :=
  .other "RuntimeError" ("session has no sandbox backend; call session.to(\"local\") " ++
    "or session.bind_sandbox(...)")

/-- `_ensure_sandbox`, with the session after it. -/
def ensureSandbox (j : ℕ) (session : BoundSession Provider) (opened : Except Exn String) :
    Raising Provider (SessionSandboxes Provider × BoundSession Provider) :=
  if s.holdsOpen session then .ok (s, session)
  else
    let s := s.setSession j { session with sandbox := none }
    match session.sandboxBackend with
    | none => .error (noBackend, s)
    | some name => do
      let handle ← raiseIn s opened
      let n := s.sandboxes.length
      let sandbox := ⟨name, handle, session.sandboxOpenSpec, false, 0⟩
      let s ← acquire texts { s with sandboxes := s.sandboxes ++ [sandbox] } n sandbox
      let session := { session with sandbox := some n }
      pure (s.setSession j session, session)

/-- `Session.__enter__`. -/
def enterSession (j : ℕ) (session : BoundSession Provider) (opened : Except Exn String) :
    Raising Provider (SessionSandboxes Provider) := do
  let (s, session) ← if session.cmDepth = 0 then s.ensureSandbox texts j session opened
    else .ok (s, session)
  pure (s.setSession j { session with cmDepth := session.cmDepth + 1 })

/-- `Session.__exit__`. -/
def exitSession (j : ℕ) (session : BoundSession Provider) (closing : Closing) :
    Raising Provider (SessionSandboxes Provider) :=
  let session := { session with cmDepth := session.cmDepth - 1 }
  let s := s.setSession j session
  if session.cmDepth = 0 then s.closeSandbox j session closing else .ok s

/-- `require_sandbox`. -/
def requireSandbox (j : ℕ) (session : BoundSession Provider) (opened : Except Exn String) :
    Raising Provider (SessionSandboxes Provider) :=
  match session.sandbox with
  | some i =>
    if s.isOpen i then .ok s
    else .error (.other "RuntimeError" "session sandbox is closed", s)
  | none =>
    match session.sandboxBackend with
    | none => .error (noBackend, s)
    | some _ => do
      let (s, _) ← s.ensureSandbox texts j session opened
      pure s

/-- `bind_sandbox`. -/
def bindSandbox (j : ℕ) (session : BoundSession Provider) (i : ℕ) (sandbox : BackendSandbox String)
    (closing : Closing) : Raising Provider (SessionSandboxes Provider) :=
  if session.sandbox = some i then .ok s
  else do
    let s ← s.releaseOf session closing
    let s ← s.acquire texts i sandbox
    pure (s.setSession j { session with
      sandbox := some i
      sandboxBackend := some sandbox.backend
      sandboxOpenSpec := sandbox.spec })

/-- A new session with the sandbox of another one, if it is open. -/
def copySession (session : BoundSession Provider) : Raising Provider (SessionSandboxes Provider) :=
  let copy := { session with sandbox := none, cmDepth := 0 }
  let n := s.sessions.length
  let s := { s with sessions := s.sessions ++ [copy] }
  match session.sandbox with
  | none => .ok s
  | some i =>
    match s.sandboxes[i]? with
    | none => .ok s
    | some sandbox =>
      if sandbox.closed then .ok s else s.bindSandbox texts n copy i sandbox .returns

/-- `Session.fork`. -/
def fork (session : BoundSession Provider) (transcript : Except Exn Unit) :
    Raising Provider (SessionSandboxes Provider) := do
  raiseIn s transcript
  s.copySession texts session

/-- `Session.detach`. -/
def detach (session : BoundSession Provider) (transcript : Except Exn Unit) :
    Raising Provider (SessionSandboxes Provider) := do
  raiseIn s transcript
  s.copySession texts session

/-- A name of a backend as Python writes it. -/
def backendRepr (name : Option String) : String :=
  match name with
  | none => "None"
  | some name => texts.repr (.str name)

/-- `Session.merge`. -/
def merge (session other : BoundSession Provider) (transcripts : Except Exn Unit) :
    Raising Provider (SessionSandboxes Provider) :=
  if session.sandbox = none ∧ other.sandbox = none ∧
      session.sandboxBackend ≠ other.sandboxBackend then
    .error (.store (.valueError ("cannot merge unbound sessions targeting different backends: " ++
      s!"{backendRepr texts session.sandboxBackend} vs {
        backendRepr texts other.sandboxBackend}")), s)
  else do
    raiseIn s transcripts
    s.copySession texts session

/-- What is held of a sandbox, when it is acquired. -/
def acquireBy (i : ℕ) (sandbox : BackendSandbox String)
    (hold : SessionSandboxes Provider → SessionSandboxes Provider) :
    Raising Provider (SessionSandboxes Provider) := do
  let s ← s.acquire texts i sandbox
  pure (hold s)

/-- A call on a session or a sandbox. A block is left that has been entered, and a reference is
released that has been acquired. -/
def step : SessionEvent Provider → Option (SessionSandboxes Provider)
  | .create backend spec provider =>
    some { s with sessions := s.sessions ++ [⟨none, backend, spec, provider, 0⟩] }
  | .openSandbox name spec opened =>
    match opened with
    | .error _ => some s
    | .ok handle => some { s with sandboxes := s.sandboxes ++ [⟨name, handle, spec, false, 0⟩] }
  | .bindSandbox j i closing =>
    s.sessions[j]?.bind fun session => s.sandboxes[i]?.map fun sandbox =>
      stateAfter (s.bindSandbox texts j session i sandbox closing)
  | .to j placement spec named closing =>
    s.sessions[j]?.map fun session => stateAfter (s.to j session placement spec named closing)
  | .closeSandbox j closing =>
    s.sessions[j]?.map fun session => stateAfter (s.closeSandbox j session closing)
  | .requireSandbox j opened =>
    s.sessions[j]?.map fun session => stateAfter (s.requireSandbox texts j session opened)
  | .fork j transcript =>
    s.sessions[j]?.map fun session => stateAfter (s.fork texts session transcript)
  | .detach j transcript =>
    s.sessions[j]?.map fun session => stateAfter (s.detach texts session transcript)
  | .merge j other transcripts =>
    s.sessions[j]?.bind fun session => s.sessions[other]?.map fun other =>
      stateAfter (s.merge texts session other transcripts)
  | .enterSession j opened =>
    s.sessions[j]?.map fun session => stateAfter (s.enterSession texts j session opened)
  | .exitSession j closing =>
    s.sessions[j]?.bind fun session =>
      if session.cmDepth = 0 then none else some (stateAfter (s.exitSession j session closing))
  | .enterSandbox i =>
    s.sandboxes[i]?.map fun sandbox => stateAfter <| s.acquireBy texts i sandbox fun s =>
      { s with blocks := Function.update s.blocks i (s.blocks i + 1) }
  | .exitSandbox i closing =>
    if s.blocks i = 0 then none
    else some (stateAfter
      (release { s with blocks := Function.update s.blocks i (s.blocks i - 1) } i closing))
  | .acquire i =>
    s.sandboxes[i]?.map fun sandbox => stateAfter <| s.acquireBy texts i sandbox fun s =>
      { s with acquires := Function.update s.acquires i (s.acquires i + 1) }
  | .release i closing =>
    if s.acquires i = 0 then none
    else some (stateAfter
      (release { s with acquires := Function.update s.acquires i (s.acquires i - 1) } i closing))

end Operations

/-! ### What is promised -/

/-- How often a sandbox is held: by sessions, by blocks, and by those who have acquired it. -/
def holders (s : SessionSandboxes Provider) (i : ℕ) : ℕ :=
  s.sessions.countP (fun session => session.sandbox = some i) + s.blocks i + s.acquires i

/-- The count of every open sandbox is that of those who hold it, and an open sandbox is closed
exactly if no one holds it any more. -/
structure Counts (s : SessionSandboxes Provider) (_ : SessionEvent Provider)
    (s' : SessionSandboxes Provider) : Prop where
  number : ∀ i sandbox, s'.sandboxes[i]? = some sandbox → sandbox.closed = false →
    sandbox.refcount = (s'.holders i : ℤ)
  closed : ∀ i, s.isOpen i = true → (s'.isOpen i = false ↔ 0 < s.holders i ∧ s'.holders i = 0)

/-- The sandbox is open, and closed when a reference to it is given up. -/
def Last (s : SessionSandboxes Provider) (i : ℕ) : Prop :=
  ∃ sandbox, s.sandboxes[i]? = some sandbox ∧ sandbox.closed = false ∧ sandbox.refcount ≤ 1

/-- Closing returns if the session gives up the last reference to its sandbox. -/
def GivesUp (s : SessionSandboxes Provider) (session : BoundSession Provider) (closing : Closing) :
    Prop :=
  ∀ i, session.sandbox = some i → s.Last i → closing = .returns

/-- A session with an open sandbox is bound to an open one only; closing returns when a session
gives up the last reference, and has closed the sandbox when someone else does. -/
def Regular (s : SessionSandboxes Provider) :
    SessionEvent Provider → SessionSandboxes Provider → Prop
  | .bindSandbox j i closing, _ => ∀ session ∈ s.sessions[j]?, ∀ k, session.sandbox = some k →
      k ≠ i → s.isOpen k = true → s.isOpen i = true ∧ s.GivesUp session closing
  | .to j (.backend _) _ none closing, _ => ∀ session ∈ s.sessions[j]?, s.GivesUp session closing
  | .closeSandbox j closing, _ => ∀ session ∈ s.sessions[j]?, s.GivesUp session closing
  | .exitSession j closing, _ => ∀ session ∈ s.sessions[j]?, session.cmDepth = 1 →
      s.GivesUp session closing
  | .exitSandbox i closing, _ => s.Last i → closing.closes = true
  | .release i closing, _ => s.Last i → closing.closes = true
  | _, _ => True

/-! ### References and those who hold them -/

variable {texts : Texts} {s s' t : SessionSandboxes Provider} {given taken : Option ℕ}

/-- The references to a sandbox are those of its holders. -/
def Balanced (s : SessionSandboxes Provider) : Prop :=
  ∀ i, Counted.references s.sandboxes i = s.holders i

/-- A holder less and a holder more. -/
def Holds (s s' : SessionSandboxes Provider) (given taken : Option ℕ) : Prop :=
  ∀ i, s'.holders i + (if given = some i then 1 else 0) =
    s.holders i + if taken = some i then 1 else 0

/-- References and holders change in the same way. -/
structure Moves (s s' : SessionSandboxes Provider) (given taken : Option ℕ) : Prop where
  follows : Counted.Follows s.sandboxes s'.sandboxes given taken
  holds : Holds s s' given taken

theorem balanced_start : Balanced (start : SessionSandboxes Provider) := fun _ => rfl

/-- When references and holders change in the same way, they stay the same in number. -/
theorem counts_of_moves (hs : Balanced s) (h : Moves s s' given taken) (e : SessionEvent Provider) :
    Balanced s' ∧ Counts s e s' := by
  have hs' : Balanced s' := by
    intro i
    have hreferences := h.follows.references i
    have hholders := h.holds i
    rw [hs i] at hreferences
    split_ifs at hreferences hholders <;> omega
  refine ⟨hs', fun i sandbox hi hopen => ?_, fun i hopen => ?_⟩
  · rw [← hs' i, Counted.references_of_getElem? hi]
    exact (Counted.live_of_open (o := sandbox) hopen).symm
  · have hcloses := h.follows.closes i hopen
    rw [hs i, hs' i] at hcloses
    refine hcloses.trans ?_
    omega

/-- A session is replaced by what becomes of it. -/
theorem holds_set {j : ℕ} {session : BoundSession Provider} (hj : s.sessions[j]? = some session)
    (session' : BoundSession Provider) (hsessions : s'.sessions = s.sessions.set j session')
    (hblocks : s'.blocks = s.blocks) (hacquires : s'.acquires = s.acquires) :
    Holds s s' session.sandbox session'.sandbox := by
  intro i
  have hcount := countP_set_add (b := session')
    (fun session : BoundSession Provider => decide (session.sandbox = some i)) hj
  simp only [decide_eq_true_eq] at hcount
  rw [holders, holders, hsessions, hblocks, hacquires]
  omega

theorem Holds.cancel (h : Holds s s' given given) : Holds s s' none none := by
  intro i
  have hi := h i
  simp only [reduceCtorEq, if_false]
  omega

theorem holds_of_eq (hsessions : s'.sessions = s.sessions) (hblocks : s'.blocks = s.blocks)
    (hacquires : s'.acquires = s.acquires) : Holds s s' none none := by
  intro i
  rw [holders, holders, hsessions, hblocks, hacquires]

/-- A new session without a sandbox. -/
theorem holds_append {session : BoundSession Provider} (hsandbox : session.sandbox = none)
    (hsessions : s'.sessions = s.sessions ++ [session]) (hblocks : s'.blocks = s.blocks)
    (hacquires : s'.acquires = s.acquires) : Holds s s' none none := by
  intro i
  rw [holders, holders, hsessions, hblocks, hacquires, List.countP_append, List.countP_singleton]
  simp [hsandbox]

theorem Holds.trans (h : Holds s t none none) (h' : Holds t s' given taken) :
    Holds s s' given taken := by
  intro i
  have hi := h i
  have hi' := h' i
  simp only [reduceCtorEq, if_false] at hi
  omega

theorem Moves.refl (s : SessionSandboxes Provider) : Moves s s none none :=
  ⟨Counted.Follows.refl _, holds_of_eq rfl rfl rfl⟩

/-- Only open sandboxes are held. -/
theorem Balanced.isOpen (hs : Balanced s) {i : ℕ} (h : 0 < s.holders i) : s.isOpen i = true := by
  refine Counted.isOpen_of_references_pos ?_
  rw [hs i]
  omega

theorem holders_pos {j : ℕ} {session : BoundSession Provider} (hj : s.sessions[j]? = some session)
    {i : ℕ} (hi : session.sandbox = some i) : 0 < s.holders i := by
  have hcount : 0 < s.sessions.countP fun session => session.sandbox = some i :=
    List.countP_pos_iff.mpr ⟨session, List.mem_of_getElem? hj, decide_eq_true hi⟩
  rw [holders]
  omega

/-- The sandbox of a session is open and has a reference. -/
theorem Balanced.exists_sandbox (hs : Balanced s) {i : ℕ} (h : 0 < s.holders i) :
    ∃ sandbox, s.sandboxes[i]? = some sandbox ∧ sandbox.closed = false ∧
      sandbox.refcount = s.holders i := by
  obtain ⟨sandbox, hi, hopen⟩ := Counted.exists_of_isOpen (hs.isOpen h)
  refine ⟨sandbox, hi, hopen, ?_⟩
  rw [← hs i, Counted.references_of_getElem? hi]
  exact (Counted.live_of_open hopen).symm

/-! ### Acquiring and releasing -/

variable (texts) in
theorem acquire_of_closed {i : ℕ} {sandbox : BackendSandbox String} (h : sandbox.closed = true) :
    ∃ e, s.acquire texts i sandbox = .error (e, s) := by
  have hacquire : Counted.acquire? sandbox = none := Counted.acquire?_of_closed h
  rw [acquire, hacquire]
  exact ⟨_, rfl⟩

variable (texts) in
theorem acquire_of_open {i : ℕ} {sandbox : BackendSandbox String} (h : sandbox.closed = false) :
    s.acquire texts i sandbox = .ok (s.setSandbox i
      (Counted.setCount sandbox ⟨false, Counted.refcount sandbox + 1⟩)) := by
  have hacquire : Counted.acquire? sandbox = _ := Counted.acquire?_of_open h
  rw [acquire, hacquire]

theorem setSandbox_setSandbox (i : ℕ) (sandbox sandbox' : BackendSandbox String) :
    (s.setSandbox i sandbox).setSandbox i sandbox' = s.setSandbox i sandbox' := by
  rw [setSandbox, setSandbox, List.set_set]
  rfl

/-- An open sandbox after it has been released. -/
def released (sandbox : BackendSandbox String) (closing : Closing) : BackendSandbox String :=
  { sandbox with
    closed := decide (sandbox.refcount ≤ 1) && closing.closes
    refcount := sandbox.refcount - 1 }

theorem released_of_lt {sandbox : BackendSandbox String} (h : 1 < sandbox.refcount)
    (closing : Closing) : released sandbox closing =
    Counted.setCount sandbox ⟨false, sandbox.refcount - 1⟩ := by
  have hlast : decide (sandbox.refcount ≤ 1) = false := decide_eq_false (by omega)
  rw [released, hlast]
  rfl

/-- Releasing an open sandbox, whose backend closes it when no reference is left. -/
theorem release_cases {i : ℕ} {sandbox : BackendSandbox String}
    (hi : s.sandboxes[i]? = some sandbox) (hopen : sandbox.closed = false) (closing : Closing) :
    (s.release i closing = .ok (s.setSandbox i (released sandbox closing)) ∧
      (sandbox.refcount ≤ 1 → closing = .returns)) ∨
    ∃ e, s.release i closing = .error (e, s.setSandbox i (released sandbox closing)) ∧
      sandbox.refcount ≤ 1 ∧ closing ≠ .returns := by
  have hrelease : Counted.release sandbox = _ := Counted.release_of_open hopen
  have hcount : Counted.refcount sandbox = sandbox.refcount := rfl
  rw [release, hi]
  simp only [hrelease, hcount]
  by_cases hlast : sandbox.refcount ≤ 1
  · have hle : decide (sandbox.refcount - 1 ≤ 0) = true := decide_eq_true (by omega)
    have hone : decide (sandbox.refcount ≤ 1) = true := decide_eq_true hlast
    rw [hle, if_pos rfl, released, hone]
    rcases closing with _ | ⟨closed, e⟩
    · refine Or.inl ⟨?_, fun _ => rfl⟩
      exact congrArg Except.ok (setSandbox_setSandbox i _ _)
    · refine Or.inr ⟨e, ?_, hlast, Closing.noConfusion⟩
      cases closed
      · rfl
      · exact congrArg (fun t => Except.error (e, t)) (setSandbox_setSandbox i _ _)
  · have hlt : 1 < sandbox.refcount := by omega
    have hle : decide (sandbox.refcount - 1 ≤ 0) = false := decide_eq_false (by omega)
    rw [hle, released_of_lt hlt]
    exact Or.inl ⟨rfl, fun h => absurd h hlast⟩

/-- The state after an open sandbox has been released. -/
theorem stateAfter_release {i : ℕ} {sandbox : BackendSandbox String}
    (hi : s.sandboxes[i]? = some sandbox) (hopen : sandbox.closed = false) (closing : Closing) :
    stateAfter (s.release i closing) = s.setSandbox i (released sandbox closing) := by
  rcases release_cases hi hopen closing with ⟨h, -⟩ | ⟨e, h, -⟩ <;> rw [h] <;> rfl

theorem live_released {sandbox : BackendSandbox String} (hpos : 0 < sandbox.refcount)
    (closing : Closing) : Counted.live (released sandbox closing) = sandbox.refcount - 1 := by
  show (if (decide (sandbox.refcount ≤ 1) && closing.closes) = true then 0
    else sandbox.refcount - 1) = sandbox.refcount - 1
  split_ifs with h
  · rw [Bool.and_eq_true, decide_eq_true_eq] at h
    omega
  · rfl

/-- A reference is given up, and the sandbox is closed with the last one. -/
theorem follows_released {i : ℕ} {sandbox : BackendSandbox String}
    (hi : s.sandboxes[i]? = some sandbox) (hopen : sandbox.closed = false)
    (hpos : 0 < sandbox.refcount) {closing : Closing}
    (hcloses : sandbox.refcount ≤ 1 → closing.closes = true) :
    Counted.Follows s.sandboxes (s.setSandbox i (released sandbox closing)).sandboxes
      (some i) none := by
  refine Counted.Follows.release hi hopen (live_released hpos closing) hpos ?_
  show (decide (sandbox.refcount ≤ 1) && closing.closes) = true ↔ sandbox.refcount ≤ 1
  rw [Bool.and_eq_true, decide_eq_true_eq]
  exact ⟨And.left, fun h => ⟨h, hcloses h⟩⟩

/-- A session gives up its sandbox. -/
theorem releaseOf_eq (hs : Balanced s) {j : ℕ} {session : BoundSession Provider}
    (hj : s.sessions[j]? = some session) {closing : Closing}
    (hgives : s.GivesUp session closing) :
    ∃ t, s.releaseOf session closing = .ok t ∧
      Counted.Follows s.sandboxes t.sandboxes session.sandbox none ∧
      (∀ i, session.sandbox ≠ some i → t.sandboxes[i]? = s.sandboxes[i]?) ∧
      t.sessions = s.sessions ∧ t.blocks = s.blocks ∧ t.acquires = s.acquires := by
  rcases hsandbox : session.sandbox with _ | i
  · rw [releaseOf, hsandbox]
    exact ⟨s, rfl, Counted.Follows.refl _, fun _ _ => rfl, rfl, rfl, rfl⟩
  · have hpos := holders_pos hj hsandbox
    obtain ⟨sandbox, hi, hopen, hcount⟩ := hs.exists_sandbox hpos
    rw [releaseOf, hsandbox]
    simp only [hs.isOpen hpos, if_true]
    rcases release_cases hi hopen closing with ⟨hrelease, hreturns⟩ | ⟨e, -, hle, hraises⟩
    · rw [hrelease]
      refine ⟨_, rfl, follows_released hi hopen (by omega) fun hle => ?_, fun k hk => ?_, rfl, rfl,
        rfl⟩
      · rw [hreturns hle]
        rfl
      · exact List.getElem?_set_ne fun heq => hk (congrArg some heq)
    · exact absurd (hgives i hsandbox ⟨sandbox, hi, hopen, hle⟩) hraises

/-! ### Sessions -/

theorem closeSandbox_eq (hs : Balanced s) {j : ℕ} {session : BoundSession Provider}
    (hj : s.sessions[j]? = some session) {closing : Closing} (hgives : s.GivesUp session closing) :
    ∃ t, s.closeSandbox j session closing = .ok t ∧
      Counted.Follows s.sandboxes t.sandboxes session.sandbox none ∧
      t.sessions = s.sessions.set j { session with sandbox := none } ∧ t.blocks = s.blocks ∧
      t.acquires = s.acquires := by
  obtain ⟨t, hrelease, hfollows, -, hsessions, hblocks, hacquires⟩ := releaseOf_eq hs hj hgives
  refine ⟨t.setSession j { session with sandbox := none }, ?_, hfollows, ?_, hblocks, hacquires⟩
  · rw [closeSandbox, hrelease]
    rfl
  · rw [← hsessions]
    rfl

/-- A session whose other fields change. -/
theorem moves_setSession {j : ℕ} {session session' : BoundSession Provider}
    (hj : s.sessions[j]? = some session) (hsame : session'.sandbox = session.sandbox) :
    Moves s (s.setSession j session') none none := by
  have hholds : Holds s (s.setSession j session') session.sandbox session'.sandbox :=
    holds_set hj session' rfl rfl rfl
  rw [hsame] at hholds
  exact ⟨Counted.Follows.refl _, hholds.cancel⟩

theorem moves_closeSandbox (hs : Balanced s) {j : ℕ} {session : BoundSession Provider}
    (hj : s.sessions[j]? = some session) {closing : Closing} (hgives : s.GivesUp session closing) :
    ∃ given taken, Moves s (stateAfter (s.closeSandbox j session closing)) given taken := by
  obtain ⟨t, hclose, hfollows, hsessions, hblocks, hacquires⟩ := closeSandbox_eq hs hj hgives
  rw [hclose]
  exact ⟨_, _, hfollows, holds_set hj _ hsessions hblocks hacquires⟩

theorem moves_to (hs : Balanced s) {j : ℕ} {session : BoundSession Provider}
    (hj : s.sessions[j]? = some session) (placement : Placement Provider)
    (spec : Option (BackendSandboxSpec ⊕ String)) (named : Option (Except Exn Provider))
    {closing : Closing}
    (hgives : ∀ name, placement = .backend name → named = none → s.GivesUp session closing) :
    ∃ given taken,
      Moves s (stateAfter (s.to j session placement spec named closing)) given taken := by
  rcases placement with name | p <;> rcases named with _ | named
  · obtain ⟨t, hclose, hfollows, hsessions, hblocks, hacquires⟩ :=
      closeSandbox_eq hs hj (hgives name rfl rfl)
    rw [SessionSandboxes.to, hclose]
    refine ⟨_, _, hfollows, holds_set hj { session with
      sandbox := none
      sandboxBackend := some name
      sandboxOpenSpec := coerceSandboxOpenSpec spec } ?_ hblocks hacquires⟩
    show t.sessions.set j _ = _
    rw [hsessions, List.set_set]
  · rcases named with e | p
    · exact ⟨_, _, Moves.refl s⟩
    · exact ⟨_, _, moves_setSession hj rfl⟩
  · exact ⟨_, _, moves_setSession hj rfl⟩
  · exact ⟨_, _, Moves.refl s⟩

variable (texts) in
/-- A sandbox is opened for a session that has none, and acquired. -/
theorem ensureSandbox_cases (hs : Balanced s) {j : ℕ} {session : BoundSession Provider}
    (hj : s.sessions[j]? = some session) (opened : Except Exn String) :
    (∃ e t, s.ensureSandbox texts j session opened = .error (e, t) ∧ Moves s t none none) ∨
    ∃ t session' taken, s.ensureSandbox texts j session opened = .ok (t, session') ∧
      Counted.Follows s.sandboxes t.sandboxes none taken ∧
      (session'.sandbox = session.sandbox ∧ taken = none ∨
        session.sandbox = none ∧ session'.sandbox = taken) ∧
      t.sessions = s.sessions.set j session' ∧ t.blocks = s.blocks ∧ t.acquires = s.acquires := by
  rcases hsandbox : session.sandbox with _ | i
  · have hholds : s.holdsOpen session = false := by
      rw [holdsOpen, hsandbox]
    rw [ensureSandbox, hholds, if_neg Bool.false_ne_true]
    have hsame : ∀ session' : BoundSession Provider, session'.sandbox = none →
        Moves s (s.setSession j session') none none :=
      fun session' hnone => moves_setSession hj (hnone.trans hsandbox.symm)
    rcases session.sandboxBackend with _ | name
    · exact Or.inl ⟨_, _, rfl, hsame _ rfl⟩
    · rcases opened with e | handle
      · exact Or.inl ⟨_, _, rfl, hsame _ rfl⟩
      · refine Or.inr ?_
        have happend := Counted.Follows.append
          (o := (⟨name, handle, session.sandboxOpenSpec, false, 0⟩ : BackendSandbox String))
          s.sandboxes rfl
        have hfollows := happend.acquire (i := s.sandboxes.length)
          List.getElem?_concat_length rfl (Option.some_ne_none _).symm
        exact ⟨_, _, _, rfl, hfollows, Or.inr ⟨rfl, rfl⟩, List.set_set .., rfl, rfl⟩
  · have hholds : s.holdsOpen session = true := by
      rw [holdsOpen, hsandbox]
      exact hs.isOpen (holders_pos hj hsandbox)
    refine Or.inr ⟨s, session, none, ?_, Counted.Follows.refl _, Or.inl ⟨hsandbox, rfl⟩,
      ?_, rfl, rfl⟩
    · rw [ensureSandbox, hholds]
      rfl
    · exact (set_of_getElem? hj).symm

/-- The session has the sandbox that it had, or the one that has been opened. -/
theorem moves_of_ensured {j : ℕ} {session : BoundSession Provider}
    (hj : s.sessions[j]? = some session) (session' : BoundSession Provider)
    (hfollows : Counted.Follows s.sandboxes t.sandboxes none taken)
    (hsandbox : session'.sandbox = session.sandbox ∧ taken = none ∨
      session.sandbox = none ∧ session'.sandbox = taken)
    (hsessions : t.sessions = s.sessions.set j session') (hblocks : t.blocks = s.blocks)
    (hacquires : t.acquires = s.acquires) : Moves s t none taken := by
  have hholds := holds_set hj _ hsessions hblocks hacquires
  refine ⟨hfollows, ?_⟩
  rcases hsandbox with ⟨hsame, rfl⟩ | ⟨hnone, rfl⟩
  · rw [hsame] at hholds
    exact hholds.cancel
  · rw [hnone] at hholds
    exact hholds

theorem moves_requireSandbox (hs : Balanced s) {j : ℕ} {session : BoundSession Provider}
    (hj : s.sessions[j]? = some session) (opened : Except Exn String) :
    ∃ given taken, Moves s (stateAfter (s.requireSandbox texts j session opened)) given taken := by
  rw [requireSandbox]
  rcases session.sandbox with _ | i
  · rcases session.sandboxBackend with _ | name
    · exact ⟨_, _, Moves.refl s⟩
    · rcases ensureSandbox_cases texts hs hj opened with ⟨e, t, hensure, hmoves⟩ |
        ⟨t, session', taken, hensure, hfollows, hsandbox, hsessions, hblocks, hacquires⟩
      · simp only [hensure]
        exact ⟨_, _, hmoves⟩
      · simp only [hensure]
        exact ⟨_, _, moves_of_ensured hj _ hfollows hsandbox hsessions hblocks hacquires⟩
  · refine ⟨none, none, ?_⟩
    show Moves s (stateAfter (if s.isOpen i = true then _ else _)) none none
    split_ifs <;> exact Moves.refl s

theorem moves_enterSession (hs : Balanced s) {j : ℕ} {session : BoundSession Provider}
    (hj : s.sessions[j]? = some session) (opened : Except Exn String) :
    ∃ given taken, Moves s (stateAfter (s.enterSession texts j session opened)) given taken := by
  rw [enterSession]
  by_cases hdepth : session.cmDepth = 0
  · rw [if_pos hdepth]
    rcases ensureSandbox_cases texts hs hj opened with ⟨e, t, hensure, hmoves⟩ |
      ⟨t, session', taken, hensure, hfollows, hsandbox, hsessions, hblocks, hacquires⟩
    · rw [hensure]
      exact ⟨_, _, hmoves⟩
    · rw [hensure]
      refine ⟨_, _, moves_of_ensured hj
        { session' with cmDepth := session'.cmDepth + 1 } hfollows hsandbox ?_ hblocks hacquires⟩
      show t.sessions.set j _ = _
      rw [hsessions, List.set_set]
  · rw [if_neg hdepth]
    exact ⟨_, _, moves_setSession hj rfl⟩

theorem moves_exitSession (hs : Balanced s) {j : ℕ} {session : BoundSession Provider}
    (hj : s.sessions[j]? = some session) {closing : Closing}
    (hgives : session.cmDepth = 1 → s.GivesUp session closing) (hdepth : session.cmDepth ≠ 0) :
    ∃ given taken, Moves s (stateAfter (s.exitSession j session closing)) given taken := by
  have hmoves : Moves s (s.setSession j { session with cmDepth := session.cmDepth - 1 })
    none none :=
    moves_setSession hj rfl
  rw [exitSession]
  by_cases hlast : session.cmDepth - 1 = 0
  · simp only [hlast, if_true] at hmoves ⊢
    have hs' := (counts_of_moves hs hmoves (.closeSandbox j closing)).1
    have hlength : j < s.sessions.length := (List.getElem?_eq_some_iff.mp hj).1
    obtain ⟨given, taken, hclose⟩ := moves_closeSandbox hs' (List.getElem?_set_self hlength)
      (hgives (by omega))
    exact ⟨given, taken, hclose.follows, hmoves.holds.trans hclose.holds⟩
  · simp only [hlast, if_false]
    exact ⟨_, _, hmoves⟩

variable (texts) in
theorem moves_bindSandbox (hs : Balanced s) {j : ℕ} {session : BoundSession Provider}
    (hj : s.sessions[j]? = some session) {i : ℕ} {sandbox : BackendSandbox String}
    (hi : s.sandboxes[i]? = some sandbox) (closing : Closing)
    (hregular : ∀ k, session.sandbox = some k → k ≠ i → s.isOpen k = true →
      s.isOpen i = true ∧ s.GivesUp session closing) :
    ∃ given taken, Moves s (stateAfter (s.bindSandbox texts j session i sandbox closing))
      given taken := by
  rw [bindSandbox]
  by_cases hsame : session.sandbox = some i
  · rw [if_pos hsame]
    exact ⟨_, _, Moves.refl s⟩
  rw [if_neg hsame]
  -- A session without an open sandbox gives up nothing.
  have hopen : session.sandbox = none ∨ s.isOpen i = true ∧ s.GivesUp session closing := by
    rcases hsandbox : session.sandbox with _ | k
    · exact Or.inl rfl
    · have hne : k ≠ i := fun heq => hsame (heq ▸ hsandbox)
      exact Or.inr (hregular k hsandbox hne (hs.isOpen (holders_pos hj hsandbox)))
  have hgives : s.GivesUp session closing := by
    rcases hopen with hnone | ⟨-, hgives⟩
    · intro k hk
      rw [hnone] at hk
      cases hk
    · exact hgives
  obtain ⟨t, hrelease, hfollows, hothers, hsessions, hblocks, hacquires⟩ :=
    releaseOf_eq hs hj hgives
  have ht : t.sandboxes[i]? = some sandbox := (hothers i hsame).trans hi
  rw [hrelease]
  rcases hclosed : sandbox.closed with _ | _
  · have hacquire := acquire_of_open texts (s := t) (i := i) hclosed
    have hmove := hfollows.acquire ht hclosed hsame
    simp only [Bind.bind, Except.bind, hacquire]
    refine ⟨_, _, hmove, holds_set hj { session with
      sandbox := some i
      sandboxBackend := some sandbox.backend
      sandboxOpenSpec := sandbox.spec } ?_ hblocks hacquires⟩
    rw [← hsessions]
    rfl
  · obtain ⟨e, hacquire⟩ := acquire_of_closed texts (s := t) (i := i) hclosed
    simp only [Bind.bind, Except.bind, hacquire]
    rcases hopen with hnone | ⟨hopen, -⟩
    · rw [hnone] at hfollows
      exact ⟨_, _, hfollows, holds_of_eq hsessions hblocks hacquires⟩
    · have hiclosed : s.isOpen i = !sandbox.closed := Counted.isOpen_of_getElem? hi
      rw [hopen, hclosed] at hiclosed
      cases hiclosed

theorem moves_copySession (hs : Balanced s) (session : BoundSession Provider) :
    ∃ given taken, Moves s (stateAfter (s.copySession texts session)) given taken := by
  have hcopy : Moves s { s with
      sessions := s.sessions ++ [{ session with sandbox := none, cmDepth := 0 }] } none none :=
    ⟨Counted.Follows.refl _, holds_append rfl rfl rfl rfl⟩
  rw [copySession]
  rcases hsandbox : session.sandbox with _ | i
  · exact ⟨_, _, hcopy⟩
  rcases hi : s.sandboxes[i]? with _ | sandbox
  · simp only [hi]
    exact ⟨_, _, hcopy⟩
  simp only [hi]
  split_ifs with hclosed
  · exact ⟨_, _, hcopy⟩
  · have hs' := (counts_of_moves hs hcopy (.fork 0 (.ok ()))).1
    obtain ⟨given, taken, hbind⟩ := moves_bindSandbox texts hs'
      List.getElem?_concat_length hi .returns fun k hk => absurd hk (Option.some_ne_none k).symm
    exact ⟨given, taken, hbind.follows, hcopy.holds.trans hbind.holds⟩

theorem moves_raiseIn (hs : Balanced s) (session : BoundSession Provider)
    (transcript : Except Exn Unit) : ∃ given taken, Moves s (stateAfter (do
      raiseIn s transcript
      s.copySession texts session)) given taken := by
  rcases transcript with e | u
  · exact ⟨_, _, Moves.refl s⟩
  · exact moves_copySession hs session

theorem moves_merge (hs : Balanced s) (session other : BoundSession Provider)
    (transcripts : Except Exn Unit) :
    ∃ given taken, Moves s (stateAfter (s.merge texts session other transcripts)) given taken := by
  rw [merge]
  split_ifs with hdifferent
  · exact ⟨_, _, Moves.refl s⟩
  · exact moves_raiseIn hs session transcripts

/-! ### Blocks and references -/

/-- A sandbox is acquired by someone who is no session. -/
theorem moves_acquireBy {i : ℕ} {sandbox : BackendSandbox String}
    (hi : s.sandboxes[i]? = some sandbox)
    {hold : SessionSandboxes Provider → SessionSandboxes Provider}
    (hsandboxes : ∀ t, (hold t).sandboxes = t.sandboxes)
    (hholders : ∀ t k, (hold t).holders k = t.holders k + if i = k then 1 else 0) :
    ∃ given taken, Moves s (stateAfter (s.acquireBy texts i sandbox hold)) given taken := by
  rw [acquireBy]
  rcases hclosed : sandbox.closed with _ | _
  · rw [acquire_of_open texts hclosed]
    refine ⟨none, some i, ?_, fun k => ?_⟩
    · have hfollows := (Counted.Follows.refl s.sandboxes).acquire hi hclosed
        (Option.some_ne_none i).symm
      show Counted.Follows s.sandboxes (hold _).sandboxes none (some i)
      rw [hsandboxes]
      exact hfollows
    · have hcount := hholders (s.setSandbox i
        (Counted.setCount sandbox ⟨false, Counted.refcount sandbox + 1⟩)) k
      simp only [reduceCtorEq, if_false, Option.some.injEq]
      exact hcount
  · obtain ⟨e, hacquire⟩ := acquire_of_closed texts (s := s) (i := i) hclosed
    rw [hacquire]
    exact ⟨_, _, Moves.refl s⟩

/-- A reference is released by someone who is no session. -/
theorem moves_release (hs : Balanced s) {i : ℕ} {closing : Closing}
    (hcloses : s.Last i → closing.closes = true)
    (hsandboxes : t.sandboxes = s.sandboxes)
    (hholders : ∀ k, t.holders k + (if i = k then 1 else 0) = s.holders k) :
    Moves s (stateAfter (t.release i closing)) (some i) none := by
  have hpos : 0 < s.holders i := by
    have hi := hholders i
    rw [if_pos rfl] at hi
    omega
  obtain ⟨sandbox, hi, hopen, hcount⟩ := hs.exists_sandbox hpos
  rw [stateAfter_release (hsandboxes ▸ hi) hopen]
  constructor
  · rw [← hsandboxes] at hi ⊢
    refine follows_released hi hopen (by omega) fun hle => ?_
    exact hcloses ⟨sandbox, hsandboxes ▸ hi, hopen, hle⟩
  · intro k
    simp only [reduceCtorEq, if_false, Option.some.injEq]
    exact hholders k

theorem holders_blocks (i n k : ℕ) :
    holders { s with blocks := Function.update s.blocks i n } k +
      (if i = k then s.blocks i else 0) =
      s.holders k + if i = k then n else 0 := by
  simp only [holders, Function.update_apply, @eq_comm _ k i]
  split_ifs with hik
  · rw [hik]
    omega
  · rfl

theorem holders_acquires (i n k : ℕ) :
    holders { s with acquires := Function.update s.acquires i n } k +
      (if i = k then s.acquires i else 0) = s.holders k + if i = k then n else 0 := by
  simp only [holders, Function.update_apply, @eq_comm _ k i]
  split_ifs with hik
  · rw [hik]
    omega
  · rfl

/-- A call under the condition keeps references and holders in step. -/
theorem moves_step (hs : Balanced s) {e : SessionEvent Provider} (h : s.step texts e = some s')
    (hregular : Regular s e s') : ∃ given taken, Moves s s' given taken := by
  cases e with
  | create backend spec provider =>
    cases h
    exact ⟨none, none, Counted.Follows.refl _, holds_append rfl rfl rfl rfl⟩
  | openSandbox name spec opened =>
    rcases opened with e | handle
    · cases h
      exact ⟨_, _, Moves.refl s⟩
    · cases h
      exact ⟨none, none, Counted.Follows.append s.sandboxes rfl, holds_of_eq rfl rfl rfl⟩
  | bindSandbox j i closing =>
    obtain ⟨session, hj, h⟩ := Option.bind_eq_some_iff.mp h
    obtain ⟨sandbox, hi, rfl⟩ := Option.map_eq_some_iff.mp h
    exact moves_bindSandbox texts hs hj hi _ (hregular session hj)
  | «to» j placement spec named closing =>
    obtain ⟨session, hj, rfl⟩ := Option.map_eq_some_iff.mp h
    refine moves_to hs hj placement spec named fun name hplacement hnamed => ?_
    subst hplacement hnamed
    exact hregular session hj
  | closeSandbox j closing =>
    obtain ⟨session, hj, rfl⟩ := Option.map_eq_some_iff.mp h
    exact moves_closeSandbox hs hj (hregular session hj)
  | requireSandbox j opened =>
    obtain ⟨session, hj, rfl⟩ := Option.map_eq_some_iff.mp h
    exact moves_requireSandbox hs hj opened
  | fork j transcript | detach j transcript =>
    obtain ⟨session, hj, rfl⟩ := Option.map_eq_some_iff.mp h
    exact moves_raiseIn hs session transcript
  | merge j other transcripts =>
    obtain ⟨session, hj, h⟩ := Option.bind_eq_some_iff.mp h
    obtain ⟨other, hother, rfl⟩ := Option.map_eq_some_iff.mp h
    exact moves_merge hs session other transcripts
  | enterSession j opened =>
    obtain ⟨session, hj, rfl⟩ := Option.map_eq_some_iff.mp h
    exact moves_enterSession hs hj opened
  | exitSession j closing =>
    obtain ⟨session, hj, h⟩ := Option.bind_eq_some_iff.mp h
    split_ifs at h with hdepth
    cases h
    exact moves_exitSession hs hj (hregular session hj) hdepth
  | enterSandbox i =>
    obtain ⟨sandbox, hi, rfl⟩ := Option.map_eq_some_iff.mp h
    refine moves_acquireBy hi (fun _ => rfl) fun t k => ?_
    have hcount := holders_blocks (s := t) i (t.blocks i + 1) k
    split_ifs at hcount ⊢ <;> omega
  | acquire i =>
    obtain ⟨sandbox, hi, rfl⟩ := Option.map_eq_some_iff.mp h
    refine moves_acquireBy hi (fun _ => rfl) fun t k => ?_
    have hcount := holders_acquires (s := t) i (t.acquires i + 1) k
    split_ifs at hcount ⊢ <;> omega
  | exitSandbox i closing =>
    rw [step] at h
    split_ifs at h with hnone
    cases h
    refine ⟨_, _, moves_release hs hregular rfl fun k => ?_⟩
    have hcount := holders_blocks (s := s) i (s.blocks i - 1) k
    split_ifs at hcount ⊢ <;> omega
  | release i closing =>
    rw [step] at h
    split_ifs at h with hnone
    cases h
    refine ⟨_, _, moves_release hs hregular rfl fun k => ?_⟩
    have hcount := holders_acquires (s := s) i (s.acquires i - 1) k
    split_ifs at hcount ⊢ <;> omega

/-! ### References that are lost -/

/-- A reference is given up and the number of holders stays the same. -/
theorem not_counts_of_lost (hs : Balanced s) {e : SessionEvent Provider} {i : ℕ}
    (hpos : 0 < s.holders i) (hholders : s'.holders i = s.holders i)
    (hreferences : Counted.references s'.sandboxes i ≠ s.holders i) : ¬ Counts s e s' := by
  intro hcounts
  rcases hopen : s'.isOpen i with _ | _
  · have hnone := ((hcounts.closed i (hs.isOpen hpos)).mp hopen).2
    omega
  · obtain ⟨sandbox, hi, hsandbox⟩ := Counted.exists_of_isOpen hopen
    have hnumber := hcounts.number i sandbox hi hsandbox
    rw [Counted.references_of_getElem? hi, Counted.live_of_open hsandbox] at hreferences
    exact hreferences (hnumber.trans (congrArg _ hholders))

/-- The state after the sandbox of a session has been released, in which the session still has
it. -/
theorem references_release (hs : Balanced s) {i : ℕ} (hpos : 0 < s.holders i) (closing : Closing) :
    Counted.references (stateAfter (s.release i closing)).sandboxes i ≠ s.holders i := by
  obtain ⟨sandbox, hi, hopen, hcount⟩ := hs.exists_sandbox hpos
  rw [stateAfter_release hi hopen]
  show Counted.references (s.sandboxes.set i _) i ≠ _
  rw [Counted.references_set hi, if_pos rfl, live_released (by omega)]
  omega

/-- Releasing the sandbox of a session returns, or leaves it to the session without a reference. -/
theorem givesUp_or_lost (hs : Balanced s) {j : ℕ} {session : BoundSession Provider}
    (hj : s.sessions[j]? = some session) (closing : Closing) : s.GivesUp session closing ∨
      ∃ e t k, s.releaseOf session closing = .error (e, t) ∧ 0 < s.holders k ∧
        t.holders k = s.holders k ∧ Counted.references t.sandboxes k ≠ s.holders k := by
  rcases hsandbox : session.sandbox with _ | k
  · refine Or.inl fun k hk => ?_
    rw [hsandbox] at hk
    cases hk
  have hpos := holders_pos hj hsandbox
  obtain ⟨sandbox, hi, hopen, hcount⟩ := hs.exists_sandbox hpos
  rcases release_cases hi hopen closing with ⟨-, hreturns⟩ | ⟨e, hrelease, -⟩
  · refine Or.inl fun i hi' hlast => hreturns ?_
    obtain ⟨sandbox', hsandbox', -, hle⟩ := hlast
    obtain rfl : k = i := Option.some.inj (hsandbox.symm.trans hi')
    obtain rfl : sandbox = sandbox' := Option.some.inj (hi.symm.trans hsandbox')
    exact hle
  · refine Or.inr ⟨e, s.setSandbox k (released sandbox closing), k, ?_, hpos, rfl, ?_⟩
    · rw [releaseOf, hsandbox]
      simp only [hs.isOpen hpos, if_true]
      exact hrelease
    · have hlost := references_release hs hpos closing
      rw [hrelease] at hlost
      exact hlost

theorem regular_bindSandbox (hs : Balanced s) {j : ℕ} {session : BoundSession Provider}
    (hj : s.sessions[j]? = some session) {i : ℕ} {sandbox : BackendSandbox String}
    (hi : s.sandboxes[i]? = some sandbox) {closing : Closing}
    (hcounts : Counts s (.bindSandbox j i closing)
      (stateAfter (s.bindSandbox texts j session i sandbox closing))) {k : ℕ}
    (hk : session.sandbox = some k) (hne : k ≠ i) :
    s.isOpen i = true ∧ s.GivesUp session closing := by
  have hdifferent : session.sandbox ≠ some i := fun heq => hne (Option.some.inj (hk.symm.trans heq))
  rw [bindSandbox, if_neg hdifferent] at hcounts
  rcases givesUp_or_lost hs hj closing with hgives | ⟨e, t, i', hrelease, hpos, hholders, hlost⟩
  · refine ⟨?_, hgives⟩
    have hpos := holders_pos hj hk
    obtain ⟨t, hrelease, hfollows, -, hsessions, hblocks, hacquires⟩ := releaseOf_eq hs hj hgives
    by_contra hclosed
    have hiclosed : s.isOpen i = !sandbox.closed := Counted.isOpen_of_getElem? hi
    rw [hiclosed, Bool.not_eq_true, Bool.not_eq_false'] at hclosed
    obtain ⟨e, hacquire⟩ := acquire_of_closed texts (s := t) (i := i) hclosed
    rw [hrelease] at hcounts
    simp only [Bind.bind, Except.bind, hacquire] at hcounts
    have hsame : t.holders k = s.holders k := by
      rw [holders, holders, hsessions, hblocks, hacquires]
    refine not_counts_of_lost hs hpos hsame ?_ hcounts
    have hreferences := hfollows.references k
    rw [hs k, hk, if_pos rfl] at hreferences
    simp only [reduceCtorEq, if_false] at hreferences
    omega
  · rw [hrelease] at hcounts
    exact absurd hcounts (not_counts_of_lost hs hpos hholders hlost)

theorem givesUp_of_counts (hs : Balanced s) {j : ℕ} {session : BoundSession Provider}
    (hj : s.sessions[j]? = some session) {closing : Closing} {e : SessionEvent Provider}
    (hcounts : Counts s e (stateAfter (s.closeSandbox j session closing))) :
    s.GivesUp session closing := by
  rcases givesUp_or_lost hs hj closing with hgives | ⟨e, t, k, hrelease, hpos, hholders, hlost⟩
  · exact hgives
  · rw [closeSandbox, hrelease] at hcounts
    exact absurd hcounts (not_counts_of_lost hs hpos hholders hlost)

theorem givesUp_of_exitSession (hs : Balanced s) {j : ℕ} {session : BoundSession Provider}
    (hj : s.sessions[j]? = some session) {closing : Closing} {e : SessionEvent Provider}
    (hdepth : session.cmDepth = 1)
    (hcounts : Counts s e (stateAfter (s.exitSession j session closing))) :
    s.GivesUp session closing := by
  have hmoves : Moves s (s.setSession j { session with cmDepth := 0 }) none none :=
    moves_setSession hj rfl
  have hsame : ∀ k, (s.setSession j { session with cmDepth := 0 }).holders k = s.holders k :=
    hmoves.holds
  have hs' := (counts_of_moves hs hmoves e).1
  have hlength : j < s.sessions.length := (List.getElem?_eq_some_iff.mp hj).1
  have hj' : (s.setSession j { session with cmDepth := 0 }).sessions[j]? =
      some { session with cmDepth := 0 } := List.getElem?_set_self hlength
  rw [exitSession, hdepth] at hcounts
  rcases givesUp_or_lost hs' hj' closing with hgives | ⟨e', t, k, hrelease, hpos, hholders, hlost⟩
  · exact hgives
  · simp only [Nat.sub_self, if_true] at hcounts
    rw [closeSandbox, hrelease] at hcounts
    rw [hsame] at hpos hholders hlost
    exact absurd hcounts (not_counts_of_lost hs hpos hholders hlost)

theorem closes_of_counts (hs : Balanced s) {i : ℕ} {closing : Closing} {e : SessionEvent Provider}
    (hsandboxes : t.sandboxes = s.sandboxes)
    (hholders : ∀ k, t.holders k + (if i = k then 1 else 0) = s.holders k)
    (hcounts : Counts s e (stateAfter (t.release i closing))) (hlast : s.Last i) :
    closing.closes = true := by
  obtain ⟨sandbox, hi, hopen, hle⟩ := hlast
  have hnumber : sandbox.refcount = s.holders i := by
    rw [← hs i, Counted.references_of_getElem? hi]
    exact (Counted.live_of_open (o := sandbox) hopen).symm
  have hnone := hholders i
  rw [if_pos rfl] at hnone
  have hi' : t.sandboxes[i]? = some sandbox := hsandboxes ▸ hi
  rw [stateAfter_release hi' hopen] at hcounts
  have hisopen : s.isOpen i = true := hs.isOpen (by omega)
  have hclosed := (hcounts.closed i hisopen).mpr ⟨by omega, by
    show t.holders i = 0
    omega⟩
  have hset : (t.setSandbox i (released sandbox closing)).isOpen i =
    !(released sandbox closing).closed := by
    show Counted.isOpen (t.sandboxes.set i _) i = _
    rw [Counted.isOpen_set hi', if_pos rfl]
    rfl
  rw [hset, Bool.not_eq_false', released, Bool.and_eq_true] at hclosed
  exact hclosed.2

/-- If the references are counted, none has been lost. -/
theorem regular_of_counts (hs : Balanced s) {e : SessionEvent Provider}
    (h : s.step texts e = some s') (hcounts : Counts s e s') : Regular s e s' := by
  cases e with
  | bindSandbox j i closing =>
    obtain ⟨session, hj, h⟩ := Option.bind_eq_some_iff.mp h
    obtain ⟨sandbox, hi, rfl⟩ := Option.map_eq_some_iff.mp h
    intro session' hj' k hk hne _
    obtain rfl : session = session' := Option.some.inj (hj.symm.trans hj')
    exact regular_bindSandbox hs hj hi hcounts hk hne
  | «to» j placement spec named closing =>
    obtain ⟨session, hj, rfl⟩ := Option.map_eq_some_iff.mp h
    rcases placement with name | p <;> rcases named with _ | named <;> try trivial
    intro session' hj'
    obtain rfl : session = session' := Option.some.inj (hj.symm.trans hj')
    rcases givesUp_or_lost hs hj closing with hgives | ⟨e, t, k, hrelease, hpos, hholders, hlost⟩
    · exact hgives
    · rw [SessionSandboxes.to, closeSandbox, hrelease] at hcounts
      exact absurd hcounts (not_counts_of_lost hs hpos hholders hlost)
  | closeSandbox j closing =>
    obtain ⟨session, hj, rfl⟩ := Option.map_eq_some_iff.mp h
    intro session' hj'
    obtain rfl : session = session' := Option.some.inj (hj.symm.trans hj')
    exact givesUp_of_counts hs hj hcounts
  | exitSession j closing =>
    obtain ⟨session, hj, h⟩ := Option.bind_eq_some_iff.mp h
    intro session' hj' hdepth
    obtain rfl : session = session' := Option.some.inj (hj.symm.trans hj')
    rw [hdepth, if_neg Nat.one_ne_zero] at h
    cases h
    exact givesUp_of_exitSession hs hj hdepth hcounts
  | exitSandbox i closing =>
    rw [step] at h
    split_ifs at h with hnone
    cases h
    refine fun hlast => closes_of_counts hs ?_ (fun k => ?_) hcounts hlast
    · rfl
    · have hcount := holders_blocks (s := s) i (s.blocks i - 1) k
      split_ifs at hcount ⊢ <;> omega
  | release i closing =>
    rw [step] at h
    split_ifs at h with hnone
    cases h
    refine fun hlast => closes_of_counts hs ?_ (fun k => ?_) hcounts hlast
    · rfl
    · have hcount := holders_acquires (s := s) i (s.acquires i - 1) k
      split_ifs at hcount ⊢ <;> omega
  | create | openSandbox | requireSandbox | fork | detach | merge | enterSession | enterSandbox
  | acquire => trivial

/-- **Counted references.** In a run of calls on sessions and sandboxes, the references to the open
sandboxes are those of their holders, and a sandbox is closed with the last one, exactly if no
session gives up its reference and stays bound. -/
theorem counts_iff (texts : Texts) (events : List (SessionEvent Provider)) :
    Events.Along (step texts) Counts start events ↔
      Events.Along (step texts) Regular start events := by
  have hstep : ∀ (s : SessionSandboxes Provider) e s', Balanced s → step texts s e = some s' →
      Regular s e s' → Balanced s' ∧ Counts s e s' := by
    intro s e s' hs h hregular
    obtain ⟨given, taken, hmoves⟩ := moves_step hs h hregular
    exact counts_of_moves hs hmoves e
  have hback : ∀ (s : SessionSandboxes Provider) e s', Balanced s → step texts s e = some s' →
      Counts s e s' → Regular s e s' := fun _ _ _ hs h hcounts => regular_of_counts hs h hcounts
  exact Events.along_iff_of_invariant hstep hback balanced_start

/-! ### A session that is bound to a closed sandbox -/

/-- A session is bound to a sandbox that someone else has acquired as well, and then to one that has
been closed. -/
def boundToClosed : List (SessionEvent Unit) :=
  [.openSandbox "trusted-host" none (.ok "/tmp/a"), .openSandbox "trusted-host" none (.ok "/tmp/b"),
    .acquire 1, .release 1 .returns, .acquire 0, .create none none none,
    .bindSandbox 0 0 .returns, .bindSandbox 0 1 .returns]

/-- The session has the first sandbox without a reference to it. -/
theorem not_counts :
    ¬ Events.Along (step ⟨fun _ => "", fun _ => ""⟩) Counts start boundToClosed := by
  intro h
  have hlast := ((((((((h _ rfl).2 _ rfl).2 _ rfl).2 _ rfl).2 _ rfl).2 _ rfl).2 _ rfl).2 _ rfl).1
  have hnumber := hlast.number 0 _ rfl rfl
  cases hnumber

end SessionSandboxes

end OpenRath
