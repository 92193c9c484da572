/-
# What is ignored

Entries that are to be ignored are no part of a stage's total, and a stage counts them
while it goes through its entries.  `ignored_entries_are_counted` says that the count is
right, whatever else is in the list and whatever becomes of it: binary hacks without code
count as well, breakpoints count only if they are to be ignored.

It has one condition, that there is a pair of an entry and an address at all.  A stage
without pairs ends before it goes through any entry and reports nothing, although there
may be entries to ignore (`ignored_alone_are_not_counted`).  The stage for caves, which
ends early only for an empty list, has no such gap (`reports_account_for_all`).
-/
import CodePatch.Proofs.Engine.Counts

namespace CodePatch

/-! ## Binary hacks -/

namespace Binhack

/-- Entries count as ignored if they are to be, or if they have no code. -/
theorem countP_isIdle (hacks : List Binhack) :
    hacks.countP isIdle =
      hacks.countP (·.ignore) + hacks.countP fun hack => !hack.ignore && hack.isCodeless := by
  induction hacks with
  | nil => rfl
  | cons hack rest ih =>
      rw [List.countP_cons, List.countP_cons, List.countP_cons, ih, isIdle]
      cases hack.ignore with
      | true =>
          show _ + _ + 1 = _ + 1 + (_ + 0)
          omega
      | false =>
          show _ + _ + (if hack.isCodeless then 1 else 0) =
            _ + 0 + (_ + if hack.isCodeless then 1 else 0)
          omega

end Binhack

namespace BinhackStage

theorem ignored_run (symbols : Symbols) (options : Options) (b : Bench) {hacks : List Binhack}
    (h : Binhack.pairs hacks ≠ []) :
    (run symbols options b hacks).1.ignored = hacks.countP Binhack.isIdle := by
  have hsites : Binhack.sites hacks ≠ 0 := by
    rwa [← Binhack.length_pairs, ne_eq, List.length_eq_zero_iff]
  rw [(run_eq symbols options b hacks).2.2, reportOn, if_neg hsites]

theorem report_of_no_pairs (symbols : Symbols) (options : Options) (b : Bench)
    {hacks : List Binhack} (h : Binhack.pairs hacks = []) :
    (run symbols options b hacks).1 = {} := by
  have hsites : Binhack.sites hacks = 0 := by
    rw [← Binhack.length_pairs, h, List.length_nil]
  rw [run, if_pos hsites]

end BinhackStage

/-! ## Breakpoints -/

namespace Admission

variable {σ : Type} (s : Setting) (a : Admission σ)

section Steps
variable (bp : Breakpoint) (handler : Handler) (index : Nat)

theorem ignored_admitSite (address : UInt32) :
    (admitSite s a bp handler index address).ignored = a.ignored := by
  simp only [admitSite]
  split
  · rfl
  · split
    · rfl
    · rfl

theorem ignored_admitAt (target : TargetAddress) :
    (admitAt s a bp handler index target).ignored = a.ignored := by
  unfold admitAt
  split
  · rfl
  · split
    · rfl
    · exact ignored_admitSite s a bp handler index _

theorem ignored_admitEach (targets : List TargetAddress) :
    (admitEach s a bp handler index targets).ignored = a.ignored := by
  induction targets generalizing a index with
  | nil => rfl
  | cons target rest ih =>
      exact (ih _ (index + 1)).trans (ignored_admitAt s a bp handler index target)

end Steps

variable (resolve : Resolver σ) (index : Nat)

theorem ignored_admitResolved (bp : Breakpoint) :
    (admitResolved s resolve a index bp).2.ignored = a.ignored := by
  rcases hr : resolve bp a.resolver with ⟨resolution, resolver, said⟩
  simp only [admitResolved, hr]
  cases resolution with
  | handler handler => exact ignored_admitEach s _ bp handler index bp.addresses
  | skip => rfl
  | abort name => rfl

theorem ignored_admitEntry (bp : Breakpoint) :
    (admitEntry s resolve a index bp).2.ignored = a.ignored + if bp.ignore then 1 else 0 := by
  unfold admitEntry
  cases bp.ignore with
  | true => rfl
  | false =>
      cases bp.checkCaveSize with
      | error e => rfl
      | ok u => exact ignored_admitResolved s a resolve index bp

/-- An admission that comes to its end has counted every entry that is to be ignored. -/
theorem ignored_admitAll (breakpoints : List Breakpoint)
    (h : (admitAll s resolve a index breakpoints).1 = none) :
    (admitAll s resolve a index breakpoints).2.ignored =
      a.ignored + breakpoints.countP (·.ignore) := by
  induction breakpoints generalizing a index with
  | nil => rfl
  | cons bp rest ih =>
      rw [admitAll_cons] at h ⊢
      cases hentry : (admitEntry s resolve a index bp).1 with
      | some name =>
          rw [hentry] at h
          cases h
      | none =>
          rw [hentry] at h
          have hrest := ih _ _ h
          rw [ignored_admitEntry] at hrest
          rw [List.countP_cons, Nat.add_comm (rest.countP _), ← Nat.add_assoc]
          exact hrest

end Admission

namespace BreakpointStage

variable {σ : Type} (symbols : Symbols) (options : Options) (table : UInt32)
  (resolve : Resolver σ) (resolver : σ) (b : Bench) {breakpoints : List Breakpoint}
  {stage : BreakpointStage}

theorem ignored_run (hpairs : Breakpoint.pairs breakpoints ≠ [])
    (h : (run symbols options table resolve resolver b breakpoints).1 = .ok stage) :
    stage.report.ignored = breakpoints.countP (·.ignore) := by
  have hsites : Breakpoint.sites breakpoints ≠ 0 := by
    rwa [← Breakpoint.length_pairs, ne_eq, List.length_eq_zero_iff]
  rcases hadmission : admission symbols options resolve resolver b breakpoints with ⟨_ | name, a⟩
  · rw [run_of_admitted table hsites hadmission] at h
    rw [← Except.ok.inj h]
    unfold admission at hadmission
    have hcount := Admission.ignored_admitAll _ _ resolve 1 breakpoints
      (congrArg Prod.fst hadmission)
    rw [hadmission] at hcount
    exact hcount.trans (Nat.zero_add _)
  · rw [run_of_refused table hsites hadmission] at h
    cases h

theorem report_of_no_pairs (hpairs : Breakpoint.pairs breakpoints = [])
    (h : (run symbols options table resolve resolver b breakpoints).1 = .ok stage) :
    stage.report = {} := by
  have hsites : Breakpoint.sites breakpoints = 0 := by
    rw [← Breakpoint.length_pairs, hpairs, List.length_nil]
  rw [run_of_no_sites symbols options table resolve resolver b hsites] at h
  rw [← Except.ok.inj h]

end BreakpointStage

/-! ## Both stages -/

namespace StageReport

/-- The entries that are ignored are all counted, as long as there is a pair of another
entry and an address; else the stage is over before it counts. -/
theorem ignored_entries_are_counted (symbols : Symbols) (options : Options) (b : Bench) :
    (∀ hacks,
      let report := (BinhackStage.run symbols options b hacks).1
      (Binhack.pairs hacks ≠ [] → report.ignored = hacks.countP (·.ignore) +
        hacks.countP fun hack => !hack.ignore && hack.isCodeless) ∧
      (Binhack.pairs hacks = [] → report = {})) ∧
    ∀ {σ : Type} table (resolve : Resolver σ) resolver breakpoints stage,
      (BreakpointStage.run symbols options table resolve resolver b breakpoints).1 = .ok stage →
      (Breakpoint.pairs breakpoints ≠ [] →
        stage.report.ignored = breakpoints.countP (·.ignore)) ∧
      (Breakpoint.pairs breakpoints = [] → stage.report = {}) := by
  refine ⟨?_, ?_⟩
  · intro hacks
    refine ⟨fun hpairs => ?_, BinhackStage.report_of_no_pairs symbols options b⟩
    rw [← Binhack.countP_isIdle]
    exact BinhackStage.ignored_run symbols options b hpairs
  · intro σ table resolve resolver breakpoints stage h
    refine ⟨fun hpairs => ?_, fun hpairs => ?_⟩
    · exact BreakpointStage.ignored_run symbols options table resolve resolver b hpairs h
    · exact BreakpointStage.report_of_no_pairs symbols options table resolve resolver b hpairs h

/-! ### A few entries, each at one address -/

def hackAt (address : UInt32) (code : String) (ignore : Bool) : Binhack where
  name := "hack"
  addresses := [.absolute address]
  code
  ignore

def breakpointAt (address : UInt32) (ignore : Bool) : Breakpoint where
  name := "enter"
  addresses := [.absolute address]
  caveSize := 5
  ignore
  config := .null

/-- No breakpoint has a handler. -/
def skipAll : Resolver Unit :=
  fun _ _ => (.skip, (), [])

def emptyBench : Bench where
  memory := {}

/-- One entry that is to be ignored and one without code, beside one that fails; and one
breakpoint that is to be ignored, beside one without a handler. -/
theorem sample_ignored_are_counted :
    let hacks := [hackAt 0x401000 "90" true, hackAt 0x401000 " " false, hackAt 0x401000 "90" false]
    let breakpoints := [breakpointAt 0x401000 false, breakpointAt 0x401005 true]
    Binhack.pairs hacks ≠ [] ∧ (BinhackStage.run {} {} emptyBench hacks).1.ignored = 2 ∧
    ∃ stage, Breakpoint.pairs breakpoints ≠ [] ∧
      (BreakpointStage.run {} {} 0 skipAll () emptyBench breakpoints).1 = .ok stage ∧
      stage.report.ignored = 1 := by
  intro hacks breakpoints
  obtain ⟨hhacks, hbreakpoints⟩ := ignored_entries_are_counted {} {} emptyBench
  have hstage : (BreakpointStage.run {} {} 0 skipAll () emptyBench breakpoints).1 = .ok _ := rfl
  refine ⟨List.cons_ne_nil _ _, (hhacks hacks).1 (List.cons_ne_nil _ _), _,
    List.cons_ne_nil _ _, hstage, ?_⟩
  exact (hbreakpoints 0 skipAll () breakpoints _ hstage).1 (List.cons_ne_nil _ _)

/-- Entries that are to be ignored are not counted where there are no others. -/
theorem ignored_alone_are_not_counted :
    ((BinhackStage.run {} {} emptyBench [hackAt 0x401000 "C3" true]).1.ignored = 0 ∧
      [hackAt 0x401000 "C3" true].countP (·.ignore) = 1) ∧
    ∃ stage,
      (BreakpointStage.run {} {} 0 skipAll () emptyBench [breakpointAt 0x401000 true]).1 =
        .ok stage ∧
      stage.report.ignored = 0 ∧ [breakpointAt 0x401000 true].countP (·.ignore) = 1 :=
  ⟨⟨rfl, rfl⟩, _, rfl, rfl, rfl⟩

end StageReport
end CodePatch
