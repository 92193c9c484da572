/-
# Which accesses failed

A fault plan says of each kind of access which of the next ones are to fail, and
every access made moves the plan on.  So the plan of a later memory tells how
many accesses of a kind were made since: `Spends` is that number, and `Failed`
says that one of them was made and was to fail.  Only an access that is made can
have failed; one that was planned to fail and never made has not.

The number in `Spends` is not always determined, since a plan without failures
stays the same whatever is done.

`Leads` leaves the numbers open.  What failed on a part of the way from one
memory to another failed on the way (`exists_failed_within`).
-/
import CodePatch.Proofs.Memory.Contents

namespace CodePatch

namespace FaultPlan

theorem shifted_zero (distances : List Nat) : shifted 0 distances = distances := by
  have hall : ∀ d ∈ distances, decide (0 ≤ d) = true := by
    intro d _
    exact decide_eq_true (Nat.zero_le d)
  rw [shifted, List.filter_eq_self.mpr hall]
  exact List.map_id' distances

theorem shifted_shifted (first second : Nat) (distances : List Nat) :
    shifted second (shifted first distances) = shifted (first + second) distances := by
  have hsub : (· - second) ∘ (· - first) = (· - (first + second)) := by
    funext d
    exact Nat.sub_sub ..
  have hle : ∀ d ∈ distances,
      (decide (second ≤ d - first) && decide (first ≤ d)) = decide (first + second ≤ d) := by
    intro d _
    rw [Bool.eq_iff_iff, Bool.and_eq_true, decide_eq_true_eq, decide_eq_true_eq,
      decide_eq_true_eq]
    omega
  unfold shifted
  rw [List.filter_map, List.map_map, List.filter_filter, hsub]
  exact congrArg (List.map _) (List.filter_congr hle)

theorem advance_zero (plan : FaultPlan) (access : Access) : plan.advance access 0 = plan := by
  rw [advance, shifted_zero]
  cases access <;> rfl

theorem advance_advance (plan : FaultPlan) (access : Access) (first second : Nat) :
    (plan.advance access first).advance access second = plan.advance access (first + second) := by
  have hpending : (plan.advance access first).pending access =
      shifted first (plan.pending access) := by
    rw [advance, pending_setPending, if_pos rfl]
  rw [advance, hpending, shifted_shifted]
  cases access <;> rfl

end FaultPlan

namespace Memory

/-- Between the two memories `count` accesses of one kind were made, by their plans. -/
def Spends (m m' : Memory) (access : Access) (count : Nat) : Prop :=
  m'.faults.pending access = FaultPlan.shifted count (m.faults.pending access)

/-- Of the accesses of one kind between the two memories, the one that `n` others
came before was made, and was to fail. -/
def Failed (m m' : Memory) (access : Access) (n : Nat) : Prop :=
  m.faults.failsAfter access n = true ∧ ∃ count, n < count ∧ m.Spends m' access count

/-- The later memory has the plan of the earlier one, after accesses of each kind. -/
def Leads (m m' : Memory) : Prop :=
  ∀ access, ∃ count, m.Spends m' access count

section
variable {m m' m'' : Memory} {access : Access} {count n : Nat}

theorem spends_zero (h : m'.faults.pending access = m.faults.pending access) :
    m.Spends m' access 0 :=
  h.trans (FaultPlan.shifted_zero _).symm

theorem Spends.trans {more : Nat} (h : m.Spends m' access count)
    (h' : m'.Spends m'' access more) : m.Spends m'' access (count + more) := by
  unfold Spends at h h' ⊢
  rw [h', h, FaultPlan.shifted_shifted]

theorem Spends.failsAfter (h : m.Spends m' access count) (n : Nat) :
    m'.faults.failsAfter access n = m.faults.failsAfter access (count + n) := by
  rw [← FaultPlan.failsAfter_advance]
  unfold FaultPlan.failsAfter FaultPlan.advance
  rw [h, FaultPlan.pending_setPending, if_pos rfl]

/-- What failed between two memories failed between any two around them. -/
theorem Failed.within {m₀ : Memory} {before after : Nat} (h₀ : m₀.Spends m access before)
    (h : m.Failed m' access n) (h' : m'.Spends m'' access after) :
    m₀.Failed m'' access (before + n) := by
  obtain ⟨hplanned, made, hn, hmade⟩ := h
  refine ⟨?_, before + made + after, ?_, (h₀.trans hmade).trans h'⟩
  · rwa [← h₀.failsAfter]
  · omega

theorem leads_of_faults_eq (h : m'.faults = m.faults) : m.Leads m' :=
  fun access => ⟨0, spends_zero (congrArg (FaultPlan.pending · access) h)⟩

theorem Leads.trans (h : m.Leads m') (h' : m'.Leads m'') : m.Leads m'' := by
  intro access
  obtain ⟨count, hcount⟩ := h access
  obtain ⟨more, hmore⟩ := h' access
  exact ⟨count + more, hcount.trans hmore⟩

theorem exists_failed_within {m₀ : Memory} (h₀ : m₀.Leads m)
    (h : ∃ n, m.Failed m' access n) (h' : m'.Leads m'') : ∃ n, m₀.Failed m'' access n := by
  obtain ⟨n, hfailed⟩ := h
  obtain ⟨before, hbefore⟩ := h₀ access
  obtain ⟨after, hafter⟩ := h' access
  exact ⟨before + n, hfailed.within hbefore hafter⟩

end

/-! ## What an access spends -/

theorem spend_zero (m : Memory) (access : Access) : m.spend access 0 = m := by
  rw [spend, FaultPlan.advance_zero]

theorem spend_spend (m : Memory) (access : Access) (first second : Nat) :
    (m.spend access first).spend access second = m.spend access (first + second) :=
  congrArg (fun faults => { m with faults }) (m.faults.advance_advance access first second)

theorem spends_spend (m : Memory) (made access : Access) :
    m.Spends (m.spend made 1) access (if access = made then 1 else 0) := by
  unfold Spends
  rw [spend, FaultPlan.advance, FaultPlan.pending_setPending]
  by_cases h : access = made
  · rw [if_pos h, if_pos h, h]
  · rw [if_neg h, if_neg h, FaultPlan.shifted_zero]

section
variable (m : Memory) (address : UInt32)

theorem spends_query (access : Access) :
    m.Spends (m.query address).2 access (if access = .query then 1 else 0) :=
  spends_spend m .query access

theorem spends_readBytes (size : Nat) (access : Access) :
    m.Spends (m.readBytes address size).2 access (if access = .read then 1 else 0) :=
  spends_spend m .read access

theorem spends_flush (access : Access) :
    m.Spends (m.flush address).2 access (if access = .flush then 1 else 0) :=
  spends_spend m .flush access

theorem spends_protect (protection : Protection) (access : Access) :
    m.Spends (m.protect address protection).2 access (if access = .protect then 1 else 0) := by
  have hspend := spends_spend m .protect access
  unfold protect
  split
  · exact hspend
  · unfold protectedAt
    split
    · exact hspend
    · exact hspend

theorem spends_write (bytes : List UInt8) (access : Access) :
    m.Spends (m.write address bytes).2 access (if access = .write then 1 else 0) := by
  have hspend := spends_spend m .write access
  unfold write
  split
  · exact hspend
  · unfold writtenAt
    split
    · exact hspend
    · dsimp only
      split
      · exact hspend
      · split
        · exact hspend
        · exact hspend

theorem spends_allocate (size : Nat) (protection : Protection) (access : Access) :
    m.Spends (m.allocate size protection).2 access (if access = .allocate then 1 else 0) := by
  have hspend := spends_spend m .allocate access
  unfold allocate
  split
  · exact hspend
  · unfold allocated
    split
    · exact hspend
    · split
      · exact hspend
      · split
        · exact hspend
        · exact hspend

theorem leads_checkRegion (length : Nat) : m.Leads (m.checkRegion address length).2 :=
  fun access => ⟨_, spends_query m address access⟩

end

/-! ## Accesses that can fail as planned only -/

theorem failed_flush {m : Memory} {address : UInt32} {e : MemoryError}
    (h : (m.flush address).1 = .error e) : m.Failed (m.flush address).2 .flush 0 := by
  unfold flush at h
  split at h
  · rename_i hfails
    exact ⟨hfails, 1, Nat.one_pos, spends_flush m address .flush⟩
  · cases h

theorem protect_or_failed {m : Memory} {address : UInt32} {r : Mapping}
    (hr : m.mappingAt? address = some r) (protection : Protection) :
    m.Failed (m.protect address protection).2 .protect 0 ∨
      (m.protect address protection).2.space =
        (m.modifyMapping r.base (Mapping.guarded protection)).space := by
  have hspends := spends_protect m address protection .protect
  by_cases hfails : m.fails .protect = true
  · exact Or.inl ⟨hfails, 1, Nat.one_pos, hspends⟩
  · refine Or.inr ?_
    have hr' : (m.spend .protect 1).mappingAt? address = some r := hr
    rw [protect, if_neg hfails, protectedAt, hr']
    rfl

end Memory
end CodePatch
