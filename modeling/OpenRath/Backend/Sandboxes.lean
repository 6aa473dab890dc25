import Mathlib.Data.Finset.Card
import OpenRath.Library.Events
import OpenRath.Library.JsonLexical
import OpenRath.Library.RefCount
import OpenRath.Runtime.World
import OpenRath.Session.Models

/-!
# Open sandboxes of the trusted host

`BackendSandbox` (`src/rath/backend/abc.py`) counts the references to a sandbox, and
`TrustedHostBackend` (`src/rath/backend/local.py`) keeps the workspaces of the open sandboxes and of
those whose directory it has made itself in two sets. The sets are sets of paths, not of sandboxes.

Of the file system the model has the directories, each by its path, without symbolic links. What is
asked to be removed is removed.

## Main definitions

* `BackendSandbox`, `TrustedHostBackend`.
* `TrustedHostBackend.aopen`, `aclose`, `step`.
* `TrustedHostBackend.Careful`: a sandbox removes nothing but its own directory, and never the
  workspace of an open one.
* `TrustedHostBackend.Separate`: no sandbox is opened on the workspace of an open one, and none is
  closed whose own directory has such a workspace in it.

## Main results

* `TrustedHostBackend.careful_iff`.
-/

namespace OpenRath

/-- `BackendSandbox`, with the name of its backend. -/
structure BackendSandbox (Handle : Type) where
  backend : String
  handle : Handle
  spec : Option BackendSandboxSpec
  closed : Bool
  refcount : ℤ
deriving DecidableEq

instance {Handle : Type} : Counted (BackendSandbox Handle) where
  count sandbox := ⟨sandbox.closed, sandbox.refcount⟩
  setCount sandbox c := { sandbox with closed := c.closed, refcount := c.refcount }
  count_setCount _ _ := rfl
  setCount_setCount _ _ _ := rfl

/-- A path, by its components. -/
abbrev DirectoryPath : Type := List String

/-- The description asks for no directory, so that a temporary one is made. -/
def makesDirectory (spec : Option BackendSandboxSpec) : Bool :=
  match spec with
  | none => true
  | some spec => spec.workingDir = .null

/-- `TrustedHostBackend`, the sandboxes that it has opened, and the directories. -/
structure TrustedHostBackend where
  openHandles : Finset DirectoryPath
  ownedHandles : Finset DirectoryPath
  sandboxes : List (BackendSandbox DirectoryPath)
  directories : Finset DirectoryPath

/-- What is called on a backend and its sandboxes. -/
inductive SandboxEvent
  /-- The new directory that `mkdtemp` would make, and what becomes of making the workspace. -/
  | open (spec : Option BackendSandboxSpec) (temporary : DirectoryPath) (mkdir : Except Exn Unit)
  | acquire (i : ℕ)
  | release (i : ℕ)
  | close (i : ℕ)

namespace TrustedHostBackend

/-- A backend without sandboxes. -/
def start (directories : Finset DirectoryPath) : TrustedHostBackend := ⟨∅, ∅, [], directories⟩

section Operations

variable (resolve : Json → Except Exn DirectoryPath) (s : TrustedHostBackend)

/-- `sandbox_count`. -/
def sandboxCount : ℕ := s.openHandles.card

/-- The sandboxes that are not closed. -/
def openSandboxes : List (BackendSandbox DirectoryPath) :=
  s.sandboxes.filter fun sandbox => !sandbox.closed

/-- The workspace of a description: a temporary directory, or the one that is asked for. -/
def workspaceOf (spec : Option BackendSandboxSpec) (temporary : DirectoryPath) :
    Except Exn DirectoryPath :=
  match spec with
  | none => .ok temporary
  | some spec => if spec.workingDir = .null then .ok temporary else resolve spec.workingDir

/-- `_aopen`. The workspace is made with the directories above it. -/
def aopen (spec : Option BackendSandboxSpec) (temporary : DirectoryPath)
    (mkdir : Except Exn Unit) : Except Exn TrustedHostBackend := do
  let workingDir ← workspaceOf resolve spec temporary
  mkdir
  pure {
    openHandles := insert workingDir s.openHandles
    ownedHandles :=
      if makesDirectory spec then insert workingDir s.ownedHandles else s.ownedHandles
    sandboxes := s.sandboxes ++ [⟨"trusted-host", workingDir, spec, false, 0⟩]
    directories := s.directories ∪ workingDir.inits.toFinset }

/-- The directories that are left when one is removed. -/
def rmtree (directory : DirectoryPath) : Finset DirectoryPath :=
  s.directories.filter fun d => directory.isPrefixOf d = false

/-- `_aclose`. -/
def aclose (i : ℕ) (sandbox : BackendSandbox DirectoryPath) : TrustedHostBackend :=
  if sandbox.closed then s
  else {
    openHandles := s.openHandles.erase sandbox.handle
    ownedHandles := s.ownedHandles.erase sandbox.handle
    sandboxes := s.sandboxes.set i (Counted.close sandbox)
    directories :=
      if sandbox.handle ∈ s.ownedHandles then s.rmtree sandbox.handle else s.directories }

/-- `BackendSandbox.acquire`, which raises if the sandbox is closed. -/
def acquire (i : ℕ) (sandbox : BackendSandbox DirectoryPath) : TrustedHostBackend :=
  match Counted.acquire? sandbox with
  | none => s
  | some sandbox => { s with sandboxes := s.sandboxes.set i sandbox }

/-- `BackendSandbox.release`. -/
def release (i : ℕ) (sandbox : BackendSandbox DirectoryPath) : TrustedHostBackend :=
  let released := Counted.release sandbox
  let s' := { s with sandboxes := s.sandboxes.set i released.1 }
  if released.2 then s'.aclose i released.1 else s'

/-- A call on a backend or on one of its sandboxes. A temporary directory is new. -/
def step : SandboxEvent → Option TrustedHostBackend
  | .open spec temporary mkdir =>
    if makesDirectory spec ∧ temporary ∈ s.directories then none
    else
      match s.aopen resolve spec temporary mkdir with
      | .ok s' => some s'
      | .error _ => some s
  | .acquire i => s.sandboxes[i]?.map (s.acquire i)
  | .release i => s.sandboxes[i]?.map (s.release i)
  | .close i => s.sandboxes[i]?.map (s.aclose i)

end Operations

/-! ### What is promised -/

/-- The sandbox is closed by the call. -/
def Closes (s : TrustedHostBackend) (i : ℕ) (sandbox : BackendSandbox DirectoryPath) :
    SandboxEvent → Prop
  | .close j => j = i ∧ s.sandboxes[i]? = some sandbox ∧ sandbox.closed = false
  | .release j => j = i ∧ s.sandboxes[i]? = some sandbox ∧ sandbox.closed = false ∧
      sandbox.refcount ≤ 1
  | _ => False

/-- What is removed lies in the directory that the sandbox which is closed has made itself, and is
not the workspace of another open sandbox; and as many sandboxes are counted as are open. -/
structure Careful (s : TrustedHostBackend) (e : SandboxEvent) (s' : TrustedHostBackend) : Prop where
  removed : ∀ d ∈ s.directories, d ∉ s'.directories → ∃ i sandbox, Closes s i sandbox e ∧
    makesDirectory sandbox.spec = true ∧ sandbox.handle <+: d ∧
    ∀ j other, j ≠ i → s.sandboxes[j]? = some other → other.closed = false → other.handle ≠ d
  count : s'.sandboxCount = s'.openSandboxes.length

/-- A sandbox that can be opened on a directory that is asked for is not opened on the workspace of
an open sandbox, and no sandbox is closed while the directory that it has made itself is the
workspace of another open one or has it in it. -/
def Separate (resolve : Json → Except Exn DirectoryPath) (s : TrustedHostBackend)
    (e : SandboxEvent) (_ : TrustedHostBackend) : Prop :=
  (∀ spec temporary mkdir, e = .open spec temporary mkdir → makesDirectory spec = false →
    mkdir = .ok () → ∀ path, workspaceOf resolve spec temporary = .ok path →
      ∀ sandbox ∈ s.openSandboxes, sandbox.handle ≠ path) ∧
  ∀ i sandbox, Closes s i sandbox e → makesDirectory sandbox.spec = true →
    ∀ j other, j ≠ i → s.sandboxes[j]? = some other → other.closed = false →
      ¬ sandbox.handle <+: other.handle

/-! ### The workspaces of the open sandboxes -/

/-- The workspaces of the open sandboxes, and which of them are temporary directories. -/
def workspaces (s : TrustedHostBackend) : List (DirectoryPath × Bool) :=
  s.openSandboxes.map fun sandbox => (sandbox.handle, makesDirectory sandbox.spec)

/-- The sets are those of the open sandboxes, whose workspaces exist and differ. -/
structure Inv (s : TrustedHostBackend) : Prop where
  distinct : (s.workspaces.map Prod.fst).Nodup
  opened : ∀ d, d ∈ s.openHandles ↔ d ∈ s.workspaces.map Prod.fst
  owned : ∀ d, d ∈ s.ownedHandles ↔ (d, true) ∈ s.workspaces
  existing : ∀ w ∈ s.workspaces, w.1 ∈ s.directories

variable {resolve : Json → Except Exn DirectoryPath} {s s' : TrustedHostBackend}

theorem inv_start (directories : Finset DirectoryPath) : Inv (start directories) where
  distinct := List.nodup_nil
  opened d := by simp [start, workspaces, openSandboxes]
  owned d := by simp [start, workspaces, openSandboxes]
  existing w hw := absurd hw List.not_mem_nil

theorem mem_openSandboxes {sandbox : BackendSandbox DirectoryPath} :
    sandbox ∈ s.openSandboxes ↔ sandbox ∈ s.sandboxes ∧ sandbox.closed = false := by
  rw [openSandboxes, List.mem_filter, Bool.not_eq_true']

theorem mem_workspaces {i : ℕ} {sandbox : BackendSandbox DirectoryPath}
    (hi : s.sandboxes[i]? = some sandbox) (hopen : sandbox.closed = false) :
    (sandbox.handle, makesDirectory sandbox.spec) ∈ s.workspaces :=
  List.mem_map_of_mem (mem_openSandboxes.mpr ⟨List.mem_of_getElem? hi, hopen⟩)

theorem Inv.sandboxCount_eq (h : Inv s) : s.sandboxCount = s.openSandboxes.length := by
  have hset : s.openHandles = (s.workspaces.map Prod.fst).toFinset := by
    ext d
    rw [h.opened, List.mem_toFinset]
  rw [sandboxCount, hset, List.toFinset_card_of_nodup h.distinct, List.length_map, workspaces,
    List.length_map]

/-- The own directories are those of the sandboxes that have made them. -/
theorem Inv.mem_ownedHandles (h : Inv s) {w : DirectoryPath × Bool} (hw : w ∈ s.workspaces) :
    w.1 ∈ s.ownedHandles ↔ w.2 = true := by
  rw [h.owned]
  refine ⟨fun howned => ?_, fun hmakes => hmakes ▸ hw⟩
  have hsame : w = (w.1, true) := List.inj_on_of_nodup_map h.distinct hw howned rfl
  rw [hsame]

/-- The workspaces are the same after the count of a sandbox has changed. -/
theorem workspaces_set {i : ℕ} {sandbox : BackendSandbox DirectoryPath}
    (hi : s.sandboxes[i]? = some sandbox) (c : RefCount) (hc : c.closed = sandbox.closed) :
    workspaces { s with sandboxes := s.sandboxes.set i (Counted.setCount sandbox c) } =
      s.workspaces :=
  map_filter_set _ hi (congrArg Bool.not hc) rfl

theorem Inv.set (h : Inv s) {i : ℕ} {sandbox : BackendSandbox DirectoryPath}
    (hi : s.sandboxes[i]? = some sandbox) (c : RefCount) (hc : c.closed = sandbox.closed) :
    Inv { s with sandboxes := s.sandboxes.set i (Counted.setCount sandbox c) } := by
  have hsame := workspaces_set hi c hc
  constructor <;> rw [hsame]
  · exact h.distinct
  · exact h.opened
  · exact h.owned
  · exact h.existing

/-! ### Opening -/

theorem aopen_eq_ok {spec : Option BackendSandboxSpec} {temporary : DirectoryPath}
    {mkdir : Except Exn Unit} (h : s.aopen resolve spec temporary mkdir = .ok s') :
    ∃ path, workspaceOf resolve spec temporary = .ok path ∧ mkdir = .ok () ∧ s' =
      ⟨insert path s.openHandles,
        if makesDirectory spec then insert path s.ownedHandles else s.ownedHandles,
        s.sandboxes ++ [⟨"trusted-host", path, spec, false, 0⟩],
        s.directories ∪ path.inits.toFinset⟩ := by
  obtain ⟨path, hpath, h⟩ := exists_of_bind_eq_ok h
  obtain ⟨⟨⟩, hmkdir, h⟩ := exists_of_bind_eq_ok h
  exact ⟨path, hpath, hmkdir, (Except.ok.inj h).symm⟩

theorem workspaceOf_of_makesDirectory {spec : Option BackendSandboxSpec}
    (h : makesDirectory spec = true) (temporary : DirectoryPath) :
    workspaceOf resolve spec temporary = .ok temporary := by
  cases spec with
  | none => rfl
  | some spec => exact if_pos (of_decide_eq_true h)

/-- A sandbox that is opened on a workspace of its own. -/
theorem inv_aopen (hinv : Inv s) {path : DirectoryPath} (spec : Option BackendSandboxSpec)
    (hnew : path ∉ s.workspaces.map Prod.fst) :
    Inv ⟨insert path s.openHandles,
      if makesDirectory spec then insert path s.ownedHandles else s.ownedHandles,
      s.sandboxes ++ [⟨"trusted-host", path, spec, false, 0⟩],
      s.directories ∪ path.inits.toFinset⟩ := by
  have hworkspaces : workspaces ⟨insert path s.openHandles,
      if makesDirectory spec then insert path s.ownedHandles else s.ownedHandles,
      s.sandboxes ++ [⟨"trusted-host", path, spec, false, 0⟩],
      s.directories ∪ path.inits.toFinset⟩ = s.workspaces ++ [(path, makesDirectory spec)] := by
    rw [workspaces, openSandboxes, List.filter_append, List.map_append]
    rfl
  constructor
  · rw [hworkspaces, List.map_append]
    exact hinv.distinct.append (List.nodup_singleton _) (List.disjoint_singleton.mpr hnew)
  · intro d
    rw [hworkspaces, List.map_append, List.mem_append, Finset.mem_insert, hinv.opened]
    simp [or_comm]
  · intro d
    rw [hworkspaces, List.mem_append, ← hinv.owned]
    cases makesDirectory spec <;> simp [or_comm]
  · intro w hw
    rw [hworkspaces, List.mem_append, List.mem_singleton] at hw
    rcases hw with hw | rfl
    · exact Finset.mem_union_left _ (hinv.existing w hw)
    · refine Finset.mem_union_right _ (List.mem_toFinset.mpr ?_)
      exact (List.mem_inits path path).mpr (List.prefix_refl path)

/-! ### Closing -/

/-- What closing an open sandbox removes is in the directory that it has made itself. -/
theorem removed_of_aclose (hinv : Inv s) {i : ℕ} {sandbox : BackendSandbox DirectoryPath}
    (hi : s.sandboxes[i]? = some sandbox) (hopen : sandbox.closed = false) {d : DirectoryPath} :
    d ∈ s.directories ∧ d ∉ (s.aclose i sandbox).directories ↔
      d ∈ s.directories ∧ makesDirectory sandbox.spec = true ∧ sandbox.handle <+: d := by
  have howned := hinv.mem_ownedHandles (mem_workspaces hi hopen)
  rw [aclose, hopen]
  refine and_congr_right fun hd => ?_
  by_cases hmakes : makesDirectory sandbox.spec = true
  · have hmem : sandbox.handle ∈ s.ownedHandles := howned.mpr hmakes
    simp [hmem, rmtree, hd, hmakes]
  · have hmem : sandbox.handle ∉ s.ownedHandles := fun h => hmakes (howned.mp h)
    simp [hmem, hd, hmakes]

/-- A sandbox is closed whose own directory has no workspace of another one in it. -/
theorem inv_aclose (hinv : Inv s) {i : ℕ} {sandbox : BackendSandbox DirectoryPath}
    (hi : s.sandboxes[i]? = some sandbox) (hopen : sandbox.closed = false)
    (hseparate : makesDirectory sandbox.spec = true → ∀ j other, j ≠ i →
      s.sandboxes[j]? = some other → other.closed = false → ¬ sandbox.handle <+: other.handle) :
    Inv (s.aclose i sandbox) := by
  have hperm : s.workspaces.Perm
      ((sandbox.handle, makesDirectory sandbox.spec) :: (s.aclose i sandbox).workspaces) := by
    rw [aclose, hopen]
    exact (perm_filter_set hi (by rw [hopen]; rfl) rfl).map _
  have hkeys := hperm.map Prod.fst
  have hdistinct := hkeys.nodup_iff.mp hinv.distinct
  rw [List.map_cons, List.nodup_cons] at hdistinct
  constructor
  · exact hdistinct.2
  · intro d
    have hopened : (s.aclose i sandbox).openHandles = s.openHandles.erase sandbox.handle := by
      rw [aclose, hopen]
      rfl
    rw [hopened, Finset.mem_erase, hinv.opened, hkeys.mem_iff, List.map_cons, List.mem_cons]
    constructor
    · exact fun h => h.2.resolve_left h.1
    · exact fun h => ⟨fun heq => hdistinct.1 (heq ▸ h), Or.inr h⟩
  · intro d
    have howned : (s.aclose i sandbox).ownedHandles = s.ownedHandles.erase sandbox.handle := by
      rw [aclose, hopen]
      rfl
    rw [howned, Finset.mem_erase, hinv.owned, hperm.mem_iff, List.mem_cons]
    constructor
    · exact fun h => h.2.resolve_left fun heq => h.1 (congrArg Prod.fst heq)
    · intro h
      have hmem : d ∈ (s.aclose i sandbox).workspaces.map Prod.fst := List.mem_map_of_mem h
      exact ⟨fun heq => hdistinct.1 (heq ▸ hmem), Or.inr h⟩
  · intro w hw
    by_contra hremoved
    have hmem := hinv.existing w (hperm.mem_iff.mpr (List.mem_cons_of_mem _ hw))
    obtain ⟨-, hmakes, hprefix⟩ := (removed_of_aclose hinv hi hopen).mp ⟨hmem, hremoved⟩
    obtain ⟨other, hother, rfl⟩ := List.mem_map.mp hw
    obtain ⟨hother, hotheropen⟩ := mem_openSandboxes.mp hother
    obtain ⟨j, hj⟩ := List.mem_iff_getElem?.mp hother
    rw [aclose, hopen] at hj
    by_cases hji : j = i
    · subst hji
      have hlength : j < s.sandboxes.length := (List.getElem?_eq_some_iff.mp hi).1
      have hclosed : Counted.close sandbox = other :=
        Option.some.inj ((List.getElem?_set_self hlength).symm.trans hj)
      rw [← hclosed] at hotheropen
      cases hotheropen
    · refine hseparate hmakes j other hji ?_ hotheropen hprefix
      exact (List.getElem?_set_ne (Ne.symm hji)).symm.trans hj

/-! ### Runs -/

theorem inv_acquire (hinv : Inv s) {i : ℕ} {sandbox : BackendSandbox DirectoryPath}
    (hi : s.sandboxes[i]? = some sandbox) : Inv (s.acquire i sandbox) := by
  rw [acquire]
  rcases hclosed : sandbox.closed with _ | _
  · have hacquire : Counted.acquire? sandbox = _ := Counted.acquire?_of_open hclosed
    rw [hacquire]
    exact hinv.set hi _ hclosed.symm
  · have hacquire : Counted.acquire? sandbox = none := Counted.acquire?_of_closed hclosed
    rw [hacquire]
    exact hinv

theorem directories_acquire (i : ℕ) (sandbox : BackendSandbox DirectoryPath) :
    (s.acquire i sandbox).directories = s.directories := by
  rw [acquire]
  cases Counted.acquire? sandbox <;> rfl

theorem closes_release {i : ℕ} {sandbox : BackendSandbox DirectoryPath}
    (hi : s.sandboxes[i]? = some sandbox) :
    Closes s i sandbox (.release i) ↔ sandbox.closed = false ∧ Counted.refcount sandbox ≤ 1 :=
  ⟨fun h => h.2.2, fun h => ⟨rfl, hi, h⟩⟩

/-- A sandbox that is released is closed, is left open, or has been closed before. -/
theorem release_cases (hinv : Inv s) {i : ℕ} {sandbox : BackendSandbox DirectoryPath}
    (hi : s.sandboxes[i]? = some sandbox) :
    (∃ t released, s.release i sandbox = t.aclose i released ∧ Inv t ∧
      t.sandboxes[i]? = some released ∧ released.closed = false ∧
      released.handle = sandbox.handle ∧ released.spec = sandbox.spec ∧
      (∀ j, j ≠ i → t.sandboxes[j]? = s.sandboxes[j]?) ∧ t.directories = s.directories ∧
      Closes s i sandbox (.release i)) ∨
    (Inv (s.release i sandbox) ∧ (s.release i sandbox).directories = s.directories ∧
      ¬ Closes s i sandbox (.release i)) := by
  rw [closes_release hi]
  rcases hclosed : sandbox.closed with _ | _
  · have hrelease : Counted.release sandbox = _ := Counted.release_of_open hclosed
    have hset := hinv.set hi ⟨false, Counted.refcount sandbox - 1⟩ hclosed.symm
    rw [release, hrelease]
    by_cases hlast : Counted.refcount sandbox - 1 ≤ 0
    · have hlength : i < s.sandboxes.length := (List.getElem?_eq_some_iff.mp hi).1
      rw [decide_eq_true hlast]
      refine Or.inl ⟨_, _, rfl, hset, List.getElem?_set_self hlength, rfl, rfl, rfl, ?_, rfl, rfl,
        by omega⟩
      exact fun j hj => List.getElem?_set_ne hj.symm
    · rw [decide_eq_false hlast]
      refine Or.inr ⟨hset, rfl, fun hcloses => hlast ?_⟩
      have hle := hcloses.2
      omega
  · have hrelease : Counted.release sandbox = _ := Counted.release_of_closed hclosed
    have hsame : s.release i sandbox = s := by
      rw [release, hrelease]
      simp only [Bool.false_eq_true, if_false, set_of_getElem? hi]
    rw [hsame]
    exact Or.inr ⟨hinv, rfl, fun hcloses => Bool.noConfusion hcloses.1⟩

/-- A sandbox that a call closes. -/
theorem inv_of_closes (hinv : Inv s) {e : SandboxEvent} (h : s.step resolve e = some s') {i : ℕ}
    {sandbox : BackendSandbox DirectoryPath} (hcloses : Closes s i sandbox e) :
    (∀ d, d ∈ s.directories ∧ d ∉ s'.directories ↔
      d ∈ s.directories ∧ makesDirectory sandbox.spec = true ∧ sandbox.handle <+: d) ∧
    ((makesDirectory sandbox.spec = true → ∀ j other, j ≠ i → s.sandboxes[j]? = some other →
      other.closed = false → ¬ sandbox.handle <+: other.handle) → Inv s') := by
  cases e with
  | «open» | acquire => cases hcloses
  | close j =>
    obtain ⟨rfl, hi, hopen⟩ := hcloses
    obtain ⟨sandbox', hi', rfl⟩ := Option.map_eq_some_iff.mp h
    obtain rfl : sandbox' = sandbox := Option.some.inj (hi'.symm.trans hi)
    exact ⟨fun d => removed_of_aclose hinv hi hopen, inv_aclose hinv hi hopen⟩
  | release j =>
    obtain rfl : j = i := hcloses.1
    have hi := hcloses.2.1
    obtain ⟨sandbox', hi', rfl⟩ := Option.map_eq_some_iff.mp h
    obtain rfl : sandbox' = sandbox := Option.some.inj (hi'.symm.trans hi)
    rcases release_cases hinv hi with hclose | ⟨-, -, hnot⟩
    · obtain ⟨t, released, heq, ht, hreleased, hopen, hhandle, hspec, hothers, hdirs, -⟩ := hclose
      rw [heq, ← hdirs, ← hhandle, ← hspec]
      refine ⟨fun d => removed_of_aclose ht hreleased hopen, fun hseparate => ?_⟩
      refine inv_aclose ht hreleased hopen fun hmakes k other hk hother => ?_
      exact hseparate hmakes k other hk ((hothers k hk).symm.trans hother)
    · exact absurd hcloses hnot

/-- A call that closes no sandbox removes nothing. -/
theorem inv_of_not_closes (hinv : Inv s) {e : SandboxEvent} (h : s.step resolve e = some s')
    (hnot : ∀ i sandbox, ¬ Closes s i sandbox e) (hseparate : Separate resolve s e s') :
    Inv s' ∧ s.directories ⊆ s'.directories := by
  cases e with
  | «open» spec temporary mkdir =>
    rw [step] at h
    split_ifs at h with hexists
    rcases hopen : s.aopen resolve spec temporary mkdir with e | t
    · rw [hopen] at h
      cases h
      exact ⟨hinv, subset_rfl⟩
    · rw [hopen] at h
      cases h
      obtain ⟨path, hpath, hmkdir, rfl⟩ := aopen_eq_ok hopen
      refine ⟨inv_aopen hinv spec fun hmem => ?_, Finset.subset_union_left⟩
      obtain ⟨w, hw, hwpath⟩ := List.mem_map.mp hmem
      by_cases hmakes : makesDirectory spec = true
      · rw [workspaceOf_of_makesDirectory hmakes] at hpath
        refine hexists ⟨hmakes, ?_⟩
        rw [Except.ok.inj hpath, ← hwpath]
        exact hinv.existing w hw
      · obtain ⟨sandbox, hsandbox, rfl⟩ := List.mem_map.mp hw
        exact hseparate.1 spec temporary mkdir rfl (eq_false_of_ne_true hmakes) hmkdir path hpath
          sandbox hsandbox hwpath
  | acquire i =>
    obtain ⟨sandbox, hi, rfl⟩ := Option.map_eq_some_iff.mp h
    exact ⟨inv_acquire hinv hi, (directories_acquire i sandbox).symm.subset⟩
  | release i =>
    obtain ⟨sandbox, hi, rfl⟩ := Option.map_eq_some_iff.mp h
    rcases release_cases hinv hi with hclose | ⟨hinv', hdirs, -⟩
    · obtain ⟨t, released, -, -, -, -, -, -, -, -, hcloses⟩ := hclose
      exact absurd hcloses (hnot i sandbox)
    · exact ⟨hinv', hdirs.symm.subset⟩
  | close i =>
    obtain ⟨sandbox, hi, rfl⟩ := Option.map_eq_some_iff.mp h
    rcases hclosed : sandbox.closed with _ | _
    · exact absurd ⟨rfl, hi, hclosed⟩ (hnot i sandbox)
    · have hsame : s.aclose i sandbox = s := if_pos hclosed
      rw [hsame]
      exact ⟨hinv, subset_rfl⟩

theorem inv_step (hinv : Inv s) {e : SandboxEvent} (h : s.step resolve e = some s')
    (hseparate : Separate resolve s e s') : Inv s' ∧ Careful s e s' := by
  by_cases hcloses : ∃ i sandbox, Closes s i sandbox e
  · obtain ⟨i, sandbox, hcloses⟩ := hcloses
    obtain ⟨hremoved, hinv'⟩ := inv_of_closes hinv h hcloses
    have hothers := hseparate.2 i sandbox hcloses
    refine ⟨hinv' hothers, fun d hd hd' => ?_, (hinv' hothers).sandboxCount_eq⟩
    obtain ⟨-, hmakes, hprefix⟩ := (hremoved d).mp ⟨hd, hd'⟩
    refine ⟨i, sandbox, hcloses, hmakes, hprefix, fun j other hj hother hopen heq => ?_⟩
    exact hothers hmakes j other hj hother hopen (heq ▸ hprefix)
  · have hnot : ∀ i sandbox, ¬ Closes s i sandbox e := fun i sandbox h => hcloses ⟨i, sandbox, h⟩
    obtain ⟨hinv', hkept⟩ := inv_of_not_closes hinv h hnot hseparate
    exact ⟨hinv', fun d hd hd' => absurd (hkept hd) hd', hinv'.sandboxCount_eq⟩

/-- If nothing is removed that should not be, and the sandboxes are counted, they have workspaces
of their own. -/
theorem separate_of_careful (hinv : Inv s) {e : SandboxEvent} (h : s.step resolve e = some s')
    (hcareful : Careful s e s') : Separate resolve s e s' := by
  constructor
  · intro spec temporary mkdir he hmakes hmkdir path hpath sandbox hsandbox hhandle
    subst he hmkdir
    have hopen : s.aopen resolve spec temporary (.ok ()) = .ok
        ⟨insert path s.openHandles,
          if makesDirectory spec then insert path s.ownedHandles else s.ownedHandles,
          s.sandboxes ++ [⟨"trusted-host", path, spec, false, 0⟩],
          s.directories ∪ path.inits.toFinset⟩ := by
      rw [aopen, hpath]
      rfl
    rw [step, hmakes, hopen] at h
    cases h
    have hcount := hcareful.count
    have hmem : path ∈ s.openHandles :=
      (hinv.opened path).mpr (List.mem_map.mpr ⟨_, List.mem_map_of_mem hsandbox, hhandle⟩)
    have hhandles := hinv.sandboxCount_eq
    rw [sandboxCount, Finset.insert_eq_of_mem hmem, openSandboxes, List.filter_append] at hcount
    rw [sandboxCount, openSandboxes] at hhandles
    simp [hhandles] at hcount
  · intro i sandbox hcloses hmakes j other hj hother hopen hprefix
    obtain ⟨hremoved, -⟩ := inv_of_closes hinv h hcloses
    have hexists := hinv.existing _ (mem_workspaces hother hopen)
    obtain ⟨hd, hd'⟩ := (hremoved other.handle).mpr ⟨hexists, hmakes, hprefix⟩
    obtain ⟨i', sandbox', hcloses', -, -, hdifferent⟩ := hcareful.removed _ hd hd'
    have hindex : i' = i := by
      cases e with
      | «open» | acquire => cases hcloses
      | release k | close k => exact hcloses'.1.symm.trans hcloses.1
    exact hdifferent j other (hindex ▸ hj) hother hopen rfl

/-- **Own directories.** In a run of calls on a backend and its sandboxes, a sandbox removes nothing
but what is in its own directory, and never the workspace of an open one, and the open sandboxes are
counted, exactly if the sandboxes are opened and closed on workspaces of their own. -/
theorem careful_iff (resolve : Json → Except Exn DirectoryPath)
    (directories : Finset DirectoryPath) (events : List SandboxEvent) :
    Events.Along (step resolve) Careful (start directories) events ↔
      Events.Along (step resolve) (Separate resolve) (start directories) events := by
  have hstep : ∀ s e s', Inv s → step resolve s e = some s' → Separate resolve s e s' →
      Inv s' ∧ Careful s e s' := fun _ _ _ hinv h hseparate => inv_step hinv h hseparate
  have hback : ∀ s e s', Inv s → step resolve s e = some s' → Careful s e s' →
      Separate resolve s e s' := fun _ _ _ hinv h hcareful => separate_of_careful hinv h hcareful
  exact Events.along_iff_of_invariant hstep hback (inv_start directories)

/-! ### A sandbox on the directory of another one -/

/-- A working directory that is asked for by its path, of one component. -/
def sampleResolve : Json → Except Exn DirectoryPath
  | .str path => .ok ["tmp", path]
  | _ => .error (.other "TypeError" "expected str, bytes or os.PathLike object")

/-- A sandbox with a temporary directory, another one that is opened on this directory, and the
second one is closed. -/
def openedTwice : List SandboxEvent :=
  [.open none ["tmp", "rath-local-1"] (.ok ()),
    .open (some ⟨.null, none, none, none, .str "rath-local-1"⟩) [] (.ok ()), .close 1]

/-- The second sandbox removes the directory of the first one, which is open. -/
theorem not_careful :
    ¬ Events.Along (step sampleResolve) Careful (start {[], ["tmp"]}) openedTwice := by
  intro h
  have hlast := (((h _ rfl).2 _ rfl).2 _ rfl).1
  obtain ⟨i, sandbox, hcloses, hmakes, -⟩ :=
    hlast.removed ["tmp", "rath-local-1"] (by decide) (by decide)
  obtain ⟨rfl, hi, -⟩ := hcloses
  cases hi
  cases hmakes

end TrustedHostBackend

end OpenRath
