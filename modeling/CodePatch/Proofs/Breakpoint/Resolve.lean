/-
# How an admission ends

Whether a run is given up is settled while its breakpoints are admitted, and the
admission only queries memory (`Queried`).

It goes through the entries and does much else on the way, but what is asked and how
it ends does not depend on that: it is what finding the handlers of the active entries
comes to, one after the other (`resolveAll`).  `admitAll_resolves` says so for all
entries, with one lemma for each step of the admission below it.
-/
import CodePatch.Proofs.Breakpoint.Admission

namespace CodePatch

/-- Nothing was done between the two memories but to query. -/
def Memory.Queried (m m' : Memory) : Prop :=
  ∃ count, m' = m.spend .query count

namespace Memory.Queried

theorem refl (m : Memory) : m.Queried m :=
  ⟨0, (m.spend_zero .query).symm⟩

theorem trans {m m' m'' : Memory} (h : m.Queried m') (h' : m'.Queried m'') : m.Queried m'' := by
  obtain ⟨first, rfl⟩ := h
  obtain ⟨second, rfl⟩ := h'
  exact ⟨first + second, m.spend_spend .query first second⟩

end Memory.Queried

/-! ## Finding handlers -/

/-- Is the entry one that needs a handler? -/
def Breakpoint.isActive (bp : Breakpoint) : Bool :=
  !bp.ignore && decide (5 ≤ bp.caveSize ∧ bp.caveSize ≤ 27)

/-- The name for want of which the run is given up. -/
def Resolution.refused? : Resolution → Option String
  | .abort name => some name
  | .handler _ | .skip => none

namespace Admission

variable {σ : Type}

/-- Finds the handlers of entries one after the other, up to the one for want of which
the run is given up. -/
def resolveAll (resolve : Resolver σ) (state : σ) : List Breakpoint → Option String × σ
  | [] => (none, state)
  | bp :: rest =>
    match (resolve bp state).1.refused? with
    | some name => (some name, (resolve bp state).2.1)
    | none => resolveAll resolve (resolve bp state).2.1 rest

section Steps
variable (s : Setting) (a : Admission σ) (bp : Breakpoint) (handler : Handler)

/-- Sites are admitted without asking, and memory is only queried for it. -/
theorem admitSite_queries (index : Nat) (address : UInt32) :
    (admitSite s a bp handler index address).resolver = a.resolver ∧
      a.bench.memory.Queried (admitSite s a bp handler index address).bench.memory := by
  simp only [admitSite]
  split
  · exact ⟨rfl, .refl _⟩
  · split
    · exact ⟨rfl, 1, rfl⟩
    · exact ⟨rfl, 1, rfl⟩

theorem admitAt_queries (index : Nat) (target : TargetAddress) :
    (admitAt s a bp handler index target).resolver = a.resolver ∧
      a.bench.memory.Queried (admitAt s a bp handler index target).bench.memory := by
  unfold admitAt
  split
  · exact ⟨rfl, .refl _⟩
  · split
    · exact ⟨rfl, .refl _⟩
    · exact admitSite_queries s a bp handler index _

theorem admitEach_queries (index : Nat) (targets : List TargetAddress) :
    (admitEach s a bp handler index targets).resolver = a.resolver ∧
      a.bench.memory.Queried (admitEach s a bp handler index targets).bench.memory := by
  induction targets generalizing a index with
  | nil => exact ⟨rfl, .refl _⟩
  | cons target rest ih =>
      obtain ⟨hresolver, hqueried⟩ := admitAt_queries s a bp handler index target
      obtain ⟨hresolver', hqueried'⟩ := ih (admitAt s a bp handler index target) (index + 1)
      exact ⟨hresolver'.trans hresolver, hqueried.trans hqueried'⟩

end Steps

section Entries
variable (s : Setting) (resolve : Resolver σ) (a : Admission σ) (index : Nat)

/-- An entry is resolved once, and the run goes on unless it is refused. -/
theorem admitResolved_resolves (bp : Breakpoint) :
    (admitResolved s resolve a index bp).1 = (resolve bp a.resolver).1.refused? ∧
    (admitResolved s resolve a index bp).2.resolver = (resolve bp a.resolver).2.1 ∧
    a.bench.memory.Queried (admitResolved s resolve a index bp).2.bench.memory := by
  rcases hr : resolve bp a.resolver with ⟨resolution, resolver, said⟩
  simp only [admitResolved, hr]
  cases resolution with
  | handler handler =>
      exact ⟨rfl, admitEach_queries s { a.say said with resolver } bp handler index bp.addresses⟩
  | skip => exact ⟨rfl, rfl, .refl _⟩
  | abort name => exact ⟨rfl, rfl, .refl _⟩

theorem admitEntry_of_active {bp : Breakpoint} (h : bp.isActive = true) :
    admitEntry s resolve a index bp = admitResolved s resolve a index bp := by
  obtain ⟨hignore, hsize⟩ := Bool.and_eq_true_iff.mp h
  have hcheck : bp.checkCaveSize = .ok () := if_pos (of_decide_eq_true hsize)
  rw [admitEntry, hcheck, if_neg]
  rwa [Bool.not_eq_true, ← Bool.not_eq_true']

theorem admitEntry_of_inactive {bp : Breakpoint} (h : bp.isActive = false) :
    (admitEntry s resolve a index bp).1 = none ∧
    (admitEntry s resolve a index bp).2.resolver = a.resolver ∧
    a.bench.memory.Queried (admitEntry s resolve a index bp).2.bench.memory := by
  unfold admitEntry
  cases hignore : bp.ignore with
  | true => exact ⟨rfl, rfl, .refl _⟩
  | false =>
      have hsize : ¬ (5 ≤ bp.caveSize ∧ bp.caveSize ≤ 27) := by
        rw [Breakpoint.isActive, hignore] at h
        exact of_decide_eq_false h
      have hcheck : bp.checkCaveSize = .error _ := if_neg hsize
      rw [hcheck]
      exact ⟨rfl, rfl, .refl _⟩

/-- What is asked and whether the run is given up is known from the active entries. -/
theorem admitAll_resolves (breakpoints : List Breakpoint) :
    let resolved := resolveAll resolve a.resolver (breakpoints.filter Breakpoint.isActive)
    (admitAll s resolve a index breakpoints).1 = resolved.1 ∧
    (admitAll s resolve a index breakpoints).2.resolver = resolved.2 ∧
    a.bench.memory.Queried (admitAll s resolve a index breakpoints).2.bench.memory := by
  induction breakpoints generalizing a index with
  | nil => exact ⟨rfl, rfl, .refl _⟩
  | cons bp rest ih =>
      rw [admitAll_cons, List.filter_cons]
      cases hactive : bp.isActive with
      | false =>
          obtain ⟨hnone, hresolver, hqueried⟩ := admitEntry_of_inactive s resolve a index hactive
          obtain ⟨hrefused, hasked, hqueried'⟩ := ih _ (next index bp)
          rw [hresolver] at hrefused hasked
          rw [hnone]
          exact ⟨hrefused, hasked, hqueried.trans hqueried'⟩
      | true =>
          obtain ⟨hfirst, hresolver, hqueried⟩ := admitResolved_resolves s resolve a index bp
          rw [admitEntry_of_active s resolve a index hactive, hfirst, if_pos rfl, resolveAll]
          cases (resolve bp a.resolver).1.refused? with
          | some name => exact ⟨rfl, hresolver, hqueried⟩
          | none =>
              obtain ⟨hrefused, hasked, hqueried'⟩ :=
                ih (admitResolved s resolve a index bp).2 (next index bp)
              rw [hresolver] at hrefused hasked
              exact ⟨hrefused, hasked, hqueried.trans hqueried'⟩

end Entries
end Admission

end CodePatch
