/-
# What is known of admitted sites

`Admission.Sound m` is the invariant of the admission, for the memory `m` that
the stage begins with: nothing is written, every admitted site has a cave size
in range and bytes that can be read, and no two sites have a byte in common.
It is an invariant for every way in which handlers are resolved and accesses
fail, because each of these can only refuse a site.

`admission` is the admission that a whole stage makes; `sound_admission` says
that it ends in a sound state, also where the run is given up.  A stage is known by
its admission: it is given up with it (`run_of_refused`), or installs what is
admitted (`run_of_admitted`).
-/
import CodePatch.Breakpoint.Stage
import CodePatch.Proofs.Memory.Failures

namespace CodePatch

namespace Site

/-- The sites have no byte in common. -/
def Clear (site other : Site) : Prop :=
  site.address.toNat + site.breakpoint.caveSize ≤ other.address.toNat ∨
    other.address.toNat + other.breakpoint.caveSize ≤ site.address.toNat

instance (site other : Site) : Decidable (site.Clear other) :=
  inferInstanceAs (Decidable (_ ∨ _))

/-- A site whose bytes can be read in `m`, and about which nothing is done yet. -/
structure Fresh (m : Memory) (site : Site) : Prop where
  least : Breakpoint.leastCaveSize ≤ site.breakpoint.caveSize
  greatest : site.breakpoint.caveSize ≤ Breakpoint.greatestCaveSize
  there : ∃ bytes, m.bytesAt site.address site.breakpoint.caveSize = .ok bytes
  slot : site.slot = none
  state : site.state = .caveReserved

theorem Fresh.of_space_eq {m m' : Memory} {site : Site} (h : site.Fresh m)
    (hspace : m'.space = m.space) : site.Fresh m' := by
  obtain ⟨bytes, hbytes⟩ := h.there
  refine { h with there := ⟨bytes, ?_⟩ }
  rwa [Memory.bytesAt_eq_of_space_eq hspace]

theorem clear_of_overlaps {site other : Site}
    (h : ¬ site.overlaps other.address other.breakpoint.caveSize = true) : site.Clear other := by
  simp only [overlaps, Bool.and_eq_true, decide_eq_true_eq, not_and, Nat.not_lt] at h
  unfold Clear
  omega

end Site

/-- The sites of an entry come on top of those behind it, unless it is to be ignored. -/
theorem Breakpoint.sites_cons (bp : Breakpoint) (rest : List Breakpoint) :
    sites (bp :: rest) = (if bp.ignore then 0 else bp.addresses.length) + sites rest := by
  unfold sites
  rw [List.filter_cons]
  cases bp.ignore with
  | true => exact (Nat.zero_add _).symm
  | false => rfl

namespace Admission

variable {σ : Type}

/-- What holds throughout an admission that begins with the memory `m`. -/
structure Sound (m : Memory) (a : Admission σ) : Prop where
  space : a.bench.memory.space = m.space
  leads : m.Leads a.bench.memory
  fresh : ∀ site ∈ a.sites, site.Fresh m
  clear : a.sites.Pairwise Site.Clear

/-- The entries are gone through one by one, up to the one where the run is given up. -/
theorem admitAll_cons (s : Setting) (resolve : Resolver σ) (a : Admission σ) (index : Nat)
    (bp : Breakpoint) (rest : List Breakpoint) :
    admitAll s resolve a index (bp :: rest) =
      match (admitEntry s resolve a index bp).1 with
      | some name => (some name, (admitEntry s resolve a index bp).2)
      | none => admitAll s resolve (admitEntry s resolve a index bp).2 (next index bp) rest := by
  rw [admitAll]
  rcases admitEntry s resolve a index bp with ⟨_ | name, a'⟩
  · rfl
  · rfl

section Steps
variable {m : Memory} {a : Admission σ} (s : Setting)

theorem Sound.same {a' : Admission σ} (h : a.Sound m) (hsites : a'.sites = a.sites)
    (hmemory : a'.bench.memory = a.bench.memory) : a'.Sound m :=
  ⟨hmemory ▸ h.space, hmemory ▸ h.leads, hsites ▸ h.fresh, hsites ▸ h.clear⟩

theorem Sound.withMemory (h : a.Sound m) {memory : Memory}
    (hspace : memory.space = a.bench.memory.space) (hleads : a.bench.memory.Leads memory) :
    ({ a with bench := a.bench.withMemory memory } : Admission σ).Sound m :=
  ⟨hspace.trans h.space, h.leads.trans hleads, h.fresh, h.clear⟩

theorem Sound.refuse (h : a.Sound m) (count : Nat) (events : Journal) :
    (a.refuse count events).Sound m :=
  h.same rfl rfl

/-- A site that is admitted has bytes that can be read, and none of them is
a byte of a site that was admitted before. -/
theorem Sound.admitSite (h : a.Sound m) {bp : Breakpoint} (hsize : bp.checkCaveSize = .ok ())
    (handler : Handler) (index : Nat) (address : UInt32) :
    (admitSite s a bp handler index address).Sound m := by
  have hrange : Breakpoint.leastCaveSize ≤ bp.caveSize ∧
      bp.caveSize ≤ Breakpoint.greatestCaveSize := by
    unfold Breakpoint.checkCaveSize at hsize
    split at hsize
    · assumption
    · cases hsize
  simp only [Admission.admitSite]
  split
  · exact h.refuse 1 _
  · rename_i hnone
    have hfree := List.find?_eq_none.mp hnone
    have hchecked := h.withMemory (Memory.space_checkRegion _ address bp.caveSize)
      (Memory.leads_checkRegion _ address bp.caveSize)
    split
    · rename_i hcheck
      obtain ⟨bytes, hbytes⟩ := Memory.bytesAt_of_checkRegion hcheck
      rw [Memory.bytesAt_eq_of_space_eq h.space] at hbytes
      refine ⟨hchecked.space, hchecked.leads, fun site hsite => ?_,
        List.pairwise_append.mpr ⟨h.clear, ?_, ?_⟩⟩
      · rcases List.mem_append.mp hsite with hsite | hsite
        · exact h.fresh site hsite
        · obtain rfl := List.mem_singleton.mp hsite
          exact ⟨hrange.1, hrange.2, ⟨bytes, hbytes⟩, rfl, rfl⟩
      · exact List.pairwise_singleton ..
      · intro site hsite other hother
        obtain rfl := List.mem_singleton.mp hother
        exact Site.clear_of_overlaps (hfree site hsite)
    · exact hchecked.refuse 1 _

theorem Sound.admitAt (h : a.Sound m) {bp : Breakpoint} (hsize : bp.checkCaveSize = .ok ())
    (handler : Handler) (index : Nat) (target : TargetAddress) :
    (admitAt s a bp handler index target).Sound m := by
  unfold Admission.admitAt
  split
  · exact h.refuse 1 _
  · split
    · exact h.refuse 1 _
    · exact h.admitSite s hsize handler index _

theorem Sound.admitEach (h : a.Sound m) {bp : Breakpoint} (hsize : bp.checkCaveSize = .ok ())
    (handler : Handler) (index : Nat) (targets : List TargetAddress) :
    (admitEach s a bp handler index targets).Sound m := by
  induction targets generalizing a index with
  | nil => exact h
  | cons target rest ih => exact ih (h.admitAt s hsize handler index target) (index + 1)

theorem Sound.admitResolved (h : a.Sound m) {bp : Breakpoint} (hsize : bp.checkCaveSize = .ok ())
    (resolve : Resolver σ) (index : Nat) : (admitResolved s resolve a index bp).2.Sound m := by
  rcases hr : resolve bp a.resolver with ⟨resolution, resolver, said⟩
  have hasked : ({ a.say said with resolver } : Admission σ).Sound m := h.same rfl rfl
  simp only [Admission.admitResolved, hr]
  cases resolution with
  | handler handler => exact hasked.admitEach s hsize handler index bp.addresses
  | skip => exact hasked.refuse bp.addresses.length []
  | abort name => exact hasked

theorem Sound.admitEntry (h : a.Sound m) (resolve : Resolver σ) (index : Nat) (bp : Breakpoint) :
    (admitEntry s resolve a index bp).2.Sound m := by
  unfold Admission.admitEntry
  split
  · exact h.same rfl rfl
  · split
    · exact h.refuse _ _
    · rename_i hsize
      exact h.admitResolved s hsize resolve index

theorem Sound.admitAll (h : a.Sound m) (resolve : Resolver σ) (index : Nat)
    (breakpoints : List Breakpoint) :
    (admitAll s resolve a index breakpoints).2.Sound m := by
  induction breakpoints generalizing a index with
  | nil => exact h
  | cons bp rest ih =>
      have hentry := h.admitEntry s resolve index bp
      rw [admitAll_cons]
      cases (Admission.admitEntry s resolve a index bp).1 with
      | some name => exact hentry
      | none => exact ih hentry (next index bp)

end Steps
end Admission

namespace BreakpointStage

/-- The admission that a stage makes. -/
def admission {σ : Type} (symbols : Symbols) (options : Options) (resolve : Resolver σ)
    (resolver : σ) (b : Bench) (breakpoints : List Breakpoint) : Option String × Admission σ :=
  Admission.admitAll ⟨symbols, options, Breakpoint.sites breakpoints⟩ resolve
    { resolver, bench := b.say [.info "Setting up breakpoints..."] } 1 breakpoints

theorem sound_admission {σ : Type} (symbols : Symbols) (options : Options) (resolve : Resolver σ)
    (resolver : σ) (b : Bench) (breakpoints : List Breakpoint) :
    (admission symbols options resolve resolver b breakpoints).2.Sound b.memory := by
  have hstart : ({ resolver, bench := b.say [.info "Setting up breakpoints..."] } :
      Admission σ).Sound b.memory :=
    ⟨rfl, Memory.leads_of_faults_eq rfl, fun _ h => absurd h List.not_mem_nil,
      List.Pairwise.nil⟩
  exact hstart.admitAll _ resolve 1 breakpoints

section Run
variable {σ : Type} (symbols : Symbols) (options : Options) (table : UInt32) (resolve : Resolver σ)
  (resolver : σ) (b : Bench) {breakpoints : List Breakpoint}

theorem run_of_no_sites (h : Breakpoint.sites breakpoints = 0) :
    run symbols options table resolve resolver b breakpoints =
      (.ok { report := {} }, resolver, b.say [.info "No breakpoints to set up."]) :=
  if_pos h

variable {symbols options resolve resolver b} {a : Admission σ}
  (h : Breakpoint.sites breakpoints ≠ 0)
include h

theorem run_of_refused {name : String}
    (hrefused : admission symbols options resolve resolver b breakpoints = (some name, a)) :
    run symbols options table resolve resolver b breakpoints =
      (.error name, a.resolver, a.bench) := by
  unfold admission at hrefused
  rw [run, if_neg h]
  simp only [hrefused]

theorem run_of_admitted
    (hadmitted : admission symbols options resolve resolver b breakpoints = (none, a)) :
    run symbols options table resolve resolver b breakpoints =
      (.ok {
        report := reportOf (Breakpoint.sites breakpoints) a.failed a.ignored
          (install symbols options table a.sites a.bench).1
        sites := (install symbols options table a.sites a.bench).1.map Site.summary
        area := (install symbols options table a.sites a.bench).2.1 },
      a.resolver, (install symbols options table a.sites a.bench).2.2) := by
  unfold admission at hadmitted
  rw [run, if_neg h]
  simp only [hadmitted]

end Run

theorem sites_admitAll_of_sites_eq_zero {σ : Type} (s : Setting) (resolve : Resolver σ)
    (a : Admission σ) (index : Nat) {breakpoints : List Breakpoint}
    (h : Breakpoint.sites breakpoints = 0) :
    (Admission.admitAll s resolve a index breakpoints).2.sites = a.sites := by
  induction breakpoints generalizing a index with
  | nil => rfl
  | cons bp rest ih =>
      rw [Breakpoint.sites_cons] at h
      have hrest : Breakpoint.sites rest = 0 := Nat.eq_zero_of_add_eq_zero_left h
      have hbp : bp.ignore = true ∨ bp.addresses = [] := by
        have hnone := Nat.eq_zero_of_add_eq_zero_right h
        cases hignore : bp.ignore with
        | true => exact Or.inl rfl
        | false =>
            rw [hignore] at hnone
            exact Or.inr (List.length_eq_zero_iff.mp hnone)
      have hentry : (Admission.admitEntry s resolve a index bp).2.sites = a.sites := by
        unfold Admission.admitEntry
        split
        · rfl
        · rename_i hignore
          have hnone := hbp.resolve_left hignore
          split
          · rfl
          · simp only [Admission.admitResolved, hnone]
            rcases resolve bp a.resolver with ⟨_ | _ | _, _, _⟩ <;> rfl
      rw [Admission.admitAll_cons]
      cases (Admission.admitEntry s resolve a index bp).1 with
      | some name => exact hentry
      | none => exact (ih _ _ hrest).trans hentry

end BreakpointStage
end CodePatch
