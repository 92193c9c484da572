/-
# Fault plans

A fault plan says which accesses to memory will fail, so that every path of a
patch can be walked.  For each kind of access it lists how many accesses of
that kind come before each failing one; the list `[0, 3]` lets the next access
fail and the fourth.  Making an access moves every later failure one closer.
-/

namespace CodePatch

/-- The accesses that can be made to fail. -/
inductive Access where
  | read
  | query
  | protect
  | write
  | allocate
  | flush
deriving DecidableEq, Repr

/-- For each kind of access, how far off its failures are. -/
structure FaultPlan where
  read : List Nat := []
  query : List Nat := []
  protect : List Nat := []
  write : List Nat := []
  allocate : List Nat := []
  flush : List Nat := []
deriving DecidableEq, Repr, Inhabited

namespace FaultPlan

/-- How far off the failures of one kind of access are. -/
def pending (plan : FaultPlan) : Access → List Nat
  | .read => plan.read
  | .query => plan.query
  | .protect => plan.protect
  | .write => plan.write
  | .allocate => plan.allocate
  | .flush => plan.flush

def setPending (plan : FaultPlan) (access : Access) (distances : List Nat) : FaultPlan :=
  match access with
  | .read => { plan with read := distances }
  | .query => { plan with query := distances }
  | .protect => { plan with protect := distances }
  | .write => { plan with write := distances }
  | .allocate => { plan with allocate := distances }
  | .flush => { plan with flush := distances }

/-- Does the access that `count` others of its kind come before fail? -/
def failsAfter (plan : FaultPlan) (access : Access) (count : Nat) : Bool :=
  (plan.pending access).contains count

/-- The distances that are left once `count` accesses are made. -/
def shifted (count : Nat) (distances : List Nat) : List Nat :=
  (distances.filter (count ≤ ·)).map (· - count)

/-- The plan once `count` accesses of one kind are made. -/
def advance (plan : FaultPlan) (access : Access) (count : Nat) : FaultPlan :=
  plan.setPending access (shifted count (plan.pending access))

theorem pending_setPending (plan : FaultPlan) (a b : Access) (distances : List Nat) :
    (plan.setPending a distances).pending b = if b = a then distances else plan.pending b := by
  cases a <;> cases b <;> rfl

/-- Accesses already made bring a failure closer by their number. -/
theorem failsAfter_advance (plan : FaultPlan) (access : Access) (made count : Nat) :
    (plan.advance access made).failsAfter access count = plan.failsAfter access (made + count) := by
  rw [failsAfter, advance, pending_setPending, if_pos rfl, failsAfter, Bool.eq_iff_iff]
  simp only [shifted, List.contains_iff_mem, List.mem_map, List.mem_filter, decide_eq_true_eq]
  constructor
  · rintro ⟨n, ⟨hn, hle⟩, rfl⟩
    rwa [Nat.add_sub_cancel' hle]
  · intro h
    exact ⟨made + count, ⟨h, Nat.le_add_right ..⟩, Nat.add_sub_cancel_left ..⟩

end FaultPlan
end CodePatch
