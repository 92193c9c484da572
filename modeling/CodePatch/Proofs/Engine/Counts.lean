/-
# What reports count

A stage counts as it goes, in many places.  Here is what its numbers come to in
the end: the total is what is applied and what is failed (`Balanced`), and it is
known beforehand, from the configuration (`reports_account_for_all`).  For binary
hacks and breakpoints it is the number of pairs of an entry and an address, where
the entry is not to be ignored; binary hacks without code are taken out of it.
For caves it is the number of entries that ask for memory.

Where a number is taken out of another one, the equation is stated as a sum, which
says that the difference is never cut off at zero.

For caves and binary hacks the stage lists the outcomes, so it is enough that
there are as many as there are entries or pairs.  The admission of breakpoints
keeps no such list: there it is an invariant that each address adds one to what
is admitted or refused (`settled`), and nothing is lost afterwards, since
installing sites returns as many as it is given.
-/
import CodePatch.Proofs.Engine.History

namespace CodePatch

/-- Whatever is counted is either applied or failed. -/
def StageReport.Balanced (r : StageReport) : Prop :=
  r.total = r.applied + r.failed

/-! ## Caves -/

namespace CaveStage

theorem length_eq_counts (outcomes : List CaveOutcome) :
    outcomes.length =
      outcomes.count .applied + outcomes.count .failed + outcomes.count .ignored := by
  induction outcomes with
  | nil => rfl
  | cons outcome rest ih =>
      simp only [List.length_cons, List.count_cons, ih]
      cases outcome with
      | applied =>
          show _ + 1 = _ + 1 + (_ + 0) + (_ + 0)
          omega
      | failed =>
          show _ + 1 = _ + 0 + (_ + 1) + (_ + 0)
          omega
      | ignored =>
          show _ + 1 = _ + 0 + (_ + 0) + (_ + 1)
          omega

theorem counts_reportOf (outcomes : List CaveOutcome) :
    (reportOf outcomes).Balanced ∧
      (reportOf outcomes).total + (reportOf outcomes).ignored = outcomes.length := by
  have hcounts := length_eq_counts outcomes
  refine ⟨?_, ?_⟩
  · show outcomes.length - outcomes.count .ignored =
      outcomes.count .applied + outcomes.count .failed
    omega
  · show outcomes.length - outcomes.count .ignored + outcomes.count .ignored = outcomes.length
    omega

theorem counts_run (symbols : Symbols) (options : Options) (b : Bench) (caves : List Cave) :
    let report := (run symbols options b caves).report
    report.Balanced ∧ report.total + report.ignored = caves.length := by
  by_cases hne : caves = []
  · subst hne
    exact ⟨rfl, rfl⟩
  · have hlength : (completion symbols options b caves).1.length = caves.length := by
      rw [length_completion, ← List.length_map (·.cave), map_cave_publication]
    rw [run_eq symbols options b caves hne, ← hlength]
    exact counts_reportOf (completion symbols options b caves).1

end CaveStage

/-! ## Binary hacks -/

namespace Binhack

/-- The pairs that are taken out of the total are those of entries without code. -/
theorem length_pairs_codeless (hacks : List Binhack) :
    (pairs (hacks.filter isCodeless)).length = (hacks.map withdrawn).foldr (· + ·) 0 := by
  induction hacks with
  | nil => rfl
  | cons hack rest ih =>
      rw [List.map_cons, List.foldr_cons, ← ih, List.filter_cons, withdrawn]
      cases hack.isCodeless with
      | false => cases hack.ignore <;> exact (Nat.zero_add _).symm
      | true =>
          rw [if_pos rfl, pairs_cons, List.length_append]
          cases hack.ignore with
          | true => rfl
          | false => exact congrArg (· + _) (List.length_map _)

theorem length_pairs_sublist {hacks hacks' : List Binhack} (h : hacks.Sublist hacks') :
    (pairs hacks).length ≤ (pairs hacks').length :=
  ((h.filter _).flatMap allPairs).length_le

end Binhack

namespace BinhackStage

theorem counts_reportOf {total : Nat} {outcomes : List BinhackOutcome}
    (h : (outcomes.map BinhackOutcome.verdicts).flatten.length = total) :
    (reportOf total outcomes).Balanced ∧ (reportOf total outcomes).total +
      (outcomes.map BinhackOutcome.withdrawn).foldr (· + ·) 0 = total := by
  have hcounts := List.count_true_add_count_false (outcomes.map BinhackOutcome.verdicts).flatten
  rw [h, ← BinhackOutcome.sum_applied, ← BinhackOutcome.sum_failed] at hcounts
  simp only [StageReport.Balanced, reportOf]
  omega

theorem counts_run (symbols : Symbols) (options : Options) (b : Bench) (hacks : List Binhack) :
    let report := (run symbols options b hacks).1
    report.Balanced ∧
      report.total + (Binhack.pairs (hacks.filter Binhack.isCodeless)).length =
        (Binhack.pairs hacks).length := by
  rw [Binhack.length_pairs hacks]
  by_cases hsites : Binhack.sites hacks = 0
  · have hnone : (Binhack.pairs (hacks.filter Binhack.isCodeless)).length ≤
        (Binhack.pairs hacks).length :=
      Binhack.length_pairs_sublist List.filter_sublist
    rw [Binhack.length_pairs hacks, hsites] at hnone
    rw [run, if_pos hsites, hsites]
    exact ⟨rfl, (Nat.zero_add _).trans (Nat.eq_zero_of_le_zero hnone)⟩
  · have hlength := length_verdicts symbols options b hacks
    obtain ⟨hwithdrawn, -⟩ := applyEntries_counts ⟨symbols, options, Binhack.sites hacks⟩
      (b.say [.info "Applying binary hacks..."]) 1 hacks
    have hreport := counts_reportOf (hlength.trans (Binhack.length_pairs hacks))
    rw [hwithdrawn, ← Binhack.length_pairs_codeless] at hreport
    rw [run, if_neg hsites]
    exact hreport

end BinhackStage

/-! ## Breakpoints -/

namespace Breakpoint

/-- The pairs of an entry that is not to be ignored, and one of its addresses. -/
def pairs (breakpoints : List Breakpoint) : List (Breakpoint × TargetAddress) :=
  (breakpoints.filter (!·.ignore)).flatMap fun bp => bp.addresses.map (bp, ·)

theorem length_pairs (breakpoints : List Breakpoint) :
    (pairs breakpoints).length = sites breakpoints := by
  unfold pairs sites
  induction breakpoints.filter (!·.ignore) with
  | nil => rfl
  | cons bp rest ih =>
      rw [List.flatMap_cons, List.length_append, ih, List.length_map]
      rfl

end Breakpoint

namespace Admission

variable {σ : Type} (s : Setting) (a : Admission σ)

/-- The number of sites that are admitted or refused so far. -/
def settled (a : Admission σ) : Nat :=
  a.sites.length + a.failed

section Steps
variable (bp : Breakpoint) (handler : Handler) (index : Nat)

theorem settled_refuse (count : Nat) (events : Journal) :
    (a.refuse count events).settled = a.settled + count :=
  (Nat.add_assoc ..).symm

theorem settled_admitSite (address : UInt32) :
    (admitSite s a bp handler index address).settled = a.settled + 1 := by
  simp only [admitSite]
  split
  · exact settled_refuse a 1 _
  · split
    · show (a.sites ++ [_]).length + a.failed = a.sites.length + a.failed + 1
      rw [List.length_append, List.length_singleton]
      exact Nat.add_right_comm ..
    · exact settled_refuse { a with bench := _ } 1 _

theorem settled_admitAt (target : TargetAddress) :
    (admitAt s a bp handler index target).settled = a.settled + 1 := by
  unfold admitAt
  split
  · exact settled_refuse a 1 _
  · split
    · exact settled_refuse a 1 _
    · exact settled_admitSite s a bp handler index _

theorem settled_admitEach (targets : List TargetAddress) :
    (admitEach s a bp handler index targets).settled = a.settled + targets.length := by
  induction targets generalizing a index with
  | nil => rfl
  | cons target rest ih =>
      show (admitEach s (admitAt s a bp handler index target) bp handler (index + 1)
        rest).settled = _
      rw [ih, settled_admitAt, List.length_cons]
      omega

end Steps

variable (resolve : Resolver σ) (index : Nat)

theorem settled_admitResolved {bp : Breakpoint}
    (h : (admitResolved s resolve a index bp).1 = none) :
    (admitResolved s resolve a index bp).2.settled = a.settled + bp.addresses.length := by
  rcases hr : resolve bp a.resolver with ⟨resolution, resolver, said⟩
  simp only [admitResolved, hr] at h ⊢
  cases resolution with
  | handler handler => exact settled_admitEach s _ bp handler index bp.addresses
  | skip => exact settled_refuse _ _ _
  | abort name => cases h

theorem settled_admitEntry (bp : Breakpoint) (h : (admitEntry s resolve a index bp).1 = none) :
    (admitEntry s resolve a index bp).2.settled =
      a.settled + if bp.ignore then 0 else bp.addresses.length := by
  unfold admitEntry at h ⊢
  cases hignore : bp.ignore with
  | true => rfl
  | false =>
      cases hsize : bp.checkCaveSize with
      | error e => exact settled_refuse a _ _
      | ok u =>
          rw [hignore, hsize] at h
          exact settled_admitResolved s a resolve index h

theorem settled_admitAll (breakpoints : List Breakpoint)
    (h : (admitAll s resolve a index breakpoints).1 = none) :
    (admitAll s resolve a index breakpoints).2.settled =
      a.settled + Breakpoint.sites breakpoints := by
  induction breakpoints generalizing a index with
  | nil => rfl
  | cons bp rest ih =>
      rw [admitAll_cons] at h ⊢
      cases hentry : (admitEntry s resolve a index bp).1 with
      | some name =>
          rw [hentry] at h
          cases h
      | none =>
          rw [hentry] at h
          rw [Breakpoint.sites_cons, ← Nat.add_assoc,
            ← settled_admitEntry s a resolve index bp hentry]
          exact ih _ _ h

end Admission

namespace BreakpointStage

theorem balanced_reportOf {total failed : Nat} (ignored : Nat) {sites : List Site}
    (h : total = failed + sites.length) : (reportOf total failed ignored sites).Balanced := by
  have harmed := List.length_eq_countP_add_countP (fun site : Site => decide (site.state = .armed))
    (l := sites)
  simp only [StageReport.Balanced, reportOf]
  simp only [decide_eq_true_eq, decide_not] at harmed ⊢
  omega

/-- An admission that comes to its end has settled all sites. -/
theorem settled_admission {σ : Type} {symbols : Symbols} {options : Options}
    {resolve : Resolver σ} {resolver : σ} {b : Bench} {breakpoints : List Breakpoint}
    {a : Admission σ}
    (h : admission symbols options resolve resolver b breakpoints = (none, a)) :
    a.settled = Breakpoint.sites breakpoints := by
  unfold admission at h
  have hsettled := Admission.settled_admitAll _ _ resolve 1 breakpoints (congrArg Prod.fst h)
  rw [h] at hsettled
  exact hsettled.trans (Nat.zero_add _)

theorem counts_run {σ : Type} (symbols : Symbols) (options : Options) (table : UInt32)
    (resolve : Resolver σ) (resolver : σ) (b : Bench) (breakpoints : List Breakpoint)
    {stage : BreakpointStage}
    (h : (run symbols options table resolve resolver b breakpoints).1 = .ok stage) :
    stage.report.Balanced ∧ stage.report.total = (Breakpoint.pairs breakpoints).length := by
  rw [Breakpoint.length_pairs]
  by_cases hzero : Breakpoint.sites breakpoints = 0
  · rw [run_of_no_sites symbols options table resolve resolver b hzero] at h
    rw [← Except.ok.inj h, hzero]
    exact ⟨rfl, rfl⟩
  · rcases hadmission : admission symbols options resolve resolver b breakpoints with ⟨_ | name, a⟩
    · rw [run_of_admitted table hzero hadmission] at h
      rw [← Except.ok.inj h]
      refine ⟨balanced_reportOf a.ignored ?_, rfl⟩
      rw [Site.length_of_place (map_place_install ..), ← settled_admission hadmission]
      exact Nat.add_comm ..
    · rw [run_of_refused table hzero hadmission] at h
      cases h

end BreakpointStage

/-! ## A whole run -/

namespace Engine

/-- A run reports what its stages report, unless the last one is given up. -/
theorem result_apply (e : Engine) (config : Config) :
    (e.apply config).1 = ((e.patched config).applyBreakpoints config).1.map fun breakpoints =>
      ⟨(e.applyCaves config).1, ((e.applyCaves config).2.1.applyBinhacks config).1,
        breakpoints⟩ := by
  unfold patched
  simp only [apply]
  rcases ((e.applyCaves config).2.1.applyBinhacks config).2.1.applyBreakpoints config with
    ⟨_ | breakpoints, e', said⟩
  · rfl
  · rfl

theorem counts_applyBreakpoints {e : Engine} {config : Config} {report : StageReport}
    (h : (e.applyBreakpoints config).1 = .ok report) :
    report.Balanced ∧ report.total = (Breakpoint.pairs config.breakpoints).length := by
  simp only [applyBreakpoints] at h
  split at h
  · cases h
  · rename_i stage hstage
    obtain rfl := Except.ok.inj h
    exact BreakpointStage.counts_run _ _ _ _ _ _ _ hstage

/-- Every report accounts for every entry and every pair of an entry and an address,
whatever fails: each is applied, failed or ignored, and counted once. -/
theorem reports_account_for_all {e : Engine} {config : Config} {report : ApplyReport}
    (h : (e.apply config).1 = .ok report) :
    (report.caves.Balanced ∧
      report.caves.total + report.caves.ignored = config.caves.length) ∧
    (report.binhacks.Balanced ∧
      report.binhacks.total + (Binhack.pairs (config.binhacks.filter Binhack.isCodeless)).length =
        (Binhack.pairs config.binhacks).length ∧
      ∀ front, front <+: config.binhacks →
        (Binhack.pairs (front.filter Binhack.isCodeless)).length ≤
          (Binhack.pairs config.binhacks).length) ∧
    report.breakpoints.Balanced ∧
      report.breakpoints.total = (Breakpoint.pairs config.breakpoints).length := by
  rw [result_apply] at h
  cases hlast : ((e.patched config).applyBreakpoints config).1 with
  | error cause =>
      rw [hlast] at h
      cases h
  | ok breakpoints =>
      rw [hlast] at h
      obtain rfl := Except.ok.inj h
      obtain ⟨hbalanced, htotal⟩ := BinhackStage.counts_run (e.applyCaves config).2.1.symbols
        config.options ⟨(e.applyCaves config).2.1.memory, []⟩ config.binhacks
      refine ⟨CaveStage.counts_run e.symbols config.options ⟨e.memory, []⟩ config.caves,
        ⟨hbalanced, htotal, ?_⟩, counts_applyBreakpoints hlast⟩
      intro front hfront
      exact Binhack.length_pairs_sublist (List.filter_sublist.trans hfront.sublist)

/-- Two caves of which one asks for no memory, two binary hacks of which one has no code,
and a breakpoint without a handler. -/
def mixedConfig : Config where
  caves := [{ name := "room", access := .rw, size := 16 }, { name := "nothing", access := .rw }]
  binhacks := [{ name := "nop", addresses := [.absolute 0x401002], code := "90 90" },
    { name := "blank", addresses := [.absolute 0x401002], code := " " }]
  breakpoints := (sampleConfig 0x401000).breakpoints

theorem mixed_report_accounts_for_all :
    let report : ApplyReport := ⟨⟨1, 1, 0, 1⟩, ⟨1, 1, 0, 1⟩, ⟨1, 0, 1, 0⟩⟩
    (sampleEngine.apply mixedConfig).1 = .ok report ∧
    report.caves.total + report.caves.ignored = mixedConfig.caves.length ∧
    report.binhacks.total +
        (Binhack.pairs (mixedConfig.binhacks.filter Binhack.isCodeless)).length =
      (Binhack.pairs mixedConfig.binhacks).length ∧
    report.breakpoints.total = (Breakpoint.pairs mixedConfig.breakpoints).length := by
  intro report
  have hreport : (sampleEngine.apply mixedConfig).1 = .ok report := rfl
  obtain ⟨⟨-, hcaves⟩, ⟨-, hbinhacks, -⟩, -, hbreakpoints⟩ := reports_account_for_all hreport
  exact ⟨hreport, hcaves, hbinhacks, hbreakpoints⟩

end Engine
end CodePatch
