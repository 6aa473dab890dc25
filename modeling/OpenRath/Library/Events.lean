import Mathlib.Data.List.Basic
import Mathlib.Data.Nat.Notation

/-!
# Runs of a system

A system goes from state to state by events. Not every event can happen in every state. A run is a
sequence of events that happen one after the other.

What holds along a run is a relation between the states before and after each of its events. From
an invariant that an event keeps when it meets one condition, it follows that a run whose events all
meet the condition keeps it. Where in turn no event can keep a promise without meeting the
condition, the runs that keep the promise are exactly those whose events meet the condition.

## Main definitions

* `Events.final?`: the state at the end of a run.
* `Events.Along`: a relation that holds of all steps of a run.

## Main results

* `Events.invariant_of_step`, `Events.invariant_of_along`, `Events.along_of_invariant`,
  `Events.along_iff_of_invariant`: the invariant rules.
-/

namespace OpenRath

namespace Events

variable {σ ε : Type} (step : σ → ε → Option σ)

/-- The state after some events, if they can happen one after the other. -/
def final? (s : σ) (events : List ε) : Option σ := events.foldlM step s

/-- All steps of the run are related. -/
def Along (P : σ → ε → σ → Prop) : σ → List ε → Prop
  | _, [] => True
  | s, e :: events => ∀ s' ∈ step s e, P s e s' ∧ Along P s' events

variable {step} {P Q : σ → ε → σ → Prop} {I : σ → Prop} {s s' : σ}

@[simp] theorem final?_nil : final? step s [] = some s := rfl

@[simp] theorem final?_cons (e : ε) (events : List ε) :
    final? step s (e :: events) = (step s e).bind fun s' => final? step s' events := rfl

theorem final?_append (events events' : List ε) :
    final? step s (events ++ events') =
      (final? step s events).bind fun s' => final? step s' events' :=
  List.foldlM_append

/-- **Invariant rule.** If an event that meets the condition keeps the invariant and with it the
promise, then a run whose events meet the condition keeps the promise. -/
theorem along_of_invariant
    (hstep : ∀ s e s', I s → step s e = some s' → P s e s' → I s' ∧ Q s e s') (hI : I s)
    {events : List ε} (h : Along step P s events) : Along step Q s events := by
  induction events generalizing s with
  | nil => trivial
  | cons e events ih =>
    intro s' hs'
    obtain ⟨hP, hrest⟩ := h s' hs'
    obtain ⟨hI', hQ⟩ := hstep s e s' hI hs' hP
    exact ⟨hQ, ih hI' hrest⟩

/-- A run whose events meet the condition keeps the invariant. -/
theorem invariant_of_along (hstep : ∀ s e s', I s → step s e = some s' → P s e s' → I s')
    (hI : I s) {events : List ε} (h : Along step P s events)
    (hs' : final? step s events = some s') : I s' := by
  induction events generalizing s with
  | nil =>
    cases hs'
    exact hI
  | cons e events ih =>
    obtain ⟨t, ht, hrest⟩ := Option.bind_eq_some_iff.mp hs'
    obtain ⟨hP, hevents⟩ := h t ht
    exact ih (hstep s e t hI ht hP) hevents hrest

/-- A run keeps what every event keeps. -/
theorem invariant_of_step (hstep : ∀ s e s', I s → step s e = some s' → I s') (hI : I s)
    {events : List ε} (hs' : final? step s events = some s') : I s' := by
  induction events generalizing s with
  | nil =>
    cases hs'
    exact hI
  | cons e events ih =>
    obtain ⟨t, ht, hrest⟩ := Option.bind_eq_some_iff.mp hs'
    exact ih (hstep s e t hI ht) hrest

/-- **Equivalence rule.** If moreover no event keeps the promise without meeting the condition, then
the runs that keep the promise are those whose events meet the condition. -/
theorem along_iff_of_invariant
    (hstep : ∀ s e s', I s → step s e = some s' → P s e s' → I s' ∧ Q s e s')
    (hback : ∀ s e s', I s → step s e = some s' → Q s e s' → P s e s') (hI : I s)
    {events : List ε} : Along step Q s events ↔ Along step P s events := by
  refine ⟨fun h => ?_, along_of_invariant hstep hI⟩
  refine along_of_invariant (I := I) (fun s e s' hI hs' hQ => ?_) hI h
  have hP := hback s e s' hI hs' hQ
  exact ⟨(hstep s e s' hI hs' hP).1, hP⟩

/-- What holds after every step holds at the end of a run. -/
theorem Along.final {R : σ → Prop} {events : List ε} (h : Along step (fun _ _ s' => R s') s events)
    (hne : events ≠ []) (hs' : final? step s events = some s') : R s' := by
  induction events generalizing s with
  | nil => exact absurd rfl hne
  | cons e events ih =>
    obtain ⟨t, ht, hrest⟩ := Option.bind_eq_some_iff.mp hs'
    obtain ⟨hR, hall⟩ := h t ht
    by_cases hnil : events = []
    · subst hnil
      exact Option.some.inj hrest ▸ hR
    · exact ih hall hnil hrest

theorem along_append {events events' : List ε} : Along step P s (events ++ events') ↔
    Along step P s events ∧ ∀ s', final? step s events = some s' → Along step P s' events' := by
  induction events generalizing s with
  | nil => simp [Along]
  | cons e events ih =>
    simp only [List.cons_append, Along, ih, final?_cons, Option.bind_eq_some_iff]
    constructor
    · intro h
      refine ⟨fun s' hs' => ⟨(h s' hs').1, (h s' hs').2.1⟩, ?_⟩
      rintro s' ⟨t, ht, hs'⟩
      exact (h t ht).2.2 s' hs'
    · intro h s' hs'
      exact ⟨(h.1 s' hs').1, (h.1 s' hs').2, fun t ht => h.2 t ⟨s', hs', ht⟩⟩

end Events

end OpenRath
