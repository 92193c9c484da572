/-
# The life of an engine

Every batch that an engine installs stays in place while further configurations
are applied.  `history` lists what was installed, with the sites as the stage
left them: the engine keeps less of a site, namely not how many bytes it
replaces (`batches_actions`).

The admission of a run compares a site with those of the same run only.  So two
sites of one batch never have a byte in common, but a site of a later run may
lie on one that is armed already; what is copied to its slot then is the
redirect (`applied_twice_is_armed_twice`).  `LeavesArmed` says that this does
not happen, and then armed sites never meet (`armed_sites_are_apart`).  It is
enough for it that no two configurations have entries for the same bytes
(`leavesArmed_of_apart`).
-/
import CodePatch.Proofs.Breakpoint.Origin
import CodePatch.Proofs.Engine.Steps

namespace CodePatch

open BreakpointStage (install)

/-- A batch as it was installed, with all that is known of its sites. -/
structure Installation where
  sites : List Site
  area : BreakpointArea

namespace Installation

/-- What the engine keeps of an installation. -/
def batch (installation : Installation) : Batch :=
  ⟨installation.sites.map Site.summary, installation.area⟩

def armed (installation : Installation) : List Site :=
  installation.sites.filter (·.state = .armed)

/-- No site of the later installation has a byte in common with an armed site of
the earlier one. -/
def Spared (earlier later : Installation) : Prop :=
  ∀ site ∈ later.sites, ∀ other ∈ earlier.armed, other.Clear site

end Installation

/-- No two sites that the configurations have entries for have a byte in common. -/
def Config.Apart (config other : Config) : Prop :=
  ∀ site site' : Site, site.Asked config.breakpoints → site'.Asked other.breakpoints →
    site.Clear site'

namespace Engine

/-! ## One run -/

/-- The engine that the breakpoints of a configuration are applied to. -/
def patched (e : Engine) (config : Config) : Engine :=
  ((e.applyCaves config).2.1.applyBinhacks config).2.1

/-- What the breakpoint stage of a run admits, or the handler for want of which the run
is given up. -/
def admission (e : Engine) (config : Config) : Option String × Admission (Option Prompter) :=
  let p := e.patched config
  BreakpointStage.admission p.symbols config.options (resolver p.symbols p.handlers p.policy)
    p.prompter ⟨p.memory, []⟩ config.breakpoints

/-- What comes of installing what a run admits. -/
def installs (e : Engine) (config : Config) : List Site × Option BreakpointArea × Bench :=
  let p := e.patched config
  let a := (e.admission config).2
  install p.symbols config.options (UInt32.ofNat p.batches.length) a.sites a.bench

/-- What a run installs, if it is not given up and there is memory for an area. -/
def installation? (e : Engine) (config : Config) : Option Installation :=
  match (e.admission config).1 with
  | some _ => none
  | none => (e.installs config).2.1.map fun area => ⟨(e.installs config).1, area⟩

section Run
variable (e : Engine) (config : Config)

theorem sound_admission : (e.admission config).2.Sound (e.patched config).memory :=
  BreakpointStage.sound_admission _ _ _ _ ⟨(e.patched config).memory, []⟩ _

/-- A run leaves the batches as they are, or there is one more: what it installs of what it
admits. -/
theorem apply_cases :
    (e.installation? config = none ∧ (e.apply config).2.1.batches = e.batches) ∨
    ∃ area, (e.installs config).2.1 = some area ∧
      e.installation? config = some ⟨(e.installs config).1, area⟩ ∧
      (e.apply config).2.1.batches = e.batches ++ [⟨(e.installs config).1.map Site.summary, area⟩] ∧
      (e.apply config).2.1.memory = (e.installs config).2.2.memory := by
  have happly : (e.apply config).2.1 = ((e.patched config).applyBreakpoints config).2.1 :=
    apply_eq e config
  have hbatches : (e.patched config).batches = e.batches := rfl
  have hends := BreakpointStage.run_ends (e.patched config).symbols config.options
    (UInt32.ofNat (e.patched config).batches.length)
    (resolver (e.patched config).symbols (e.patched config).handlers (e.patched config).policy)
    (e.patched config).prompter ⟨(e.patched config).memory, []⟩ config.breakpoints
  rw [happly, ← hbatches]
  simp only [applyBreakpoints]
  generalize BreakpointStage.run (e.patched config).symbols config.options
    (UInt32.ofNat (e.patched config).batches.length)
    (resolver (e.patched config).symbols (e.patched config).handlers (e.patched config).policy)
    (e.patched config).prompter ⟨(e.patched config).memory, []⟩ config.breakpoints = outcome
    at hends ⊢
  obtain ⟨result, prompter, b⟩ := outcome
  rcases hends with ⟨-, hnone, hinstalled⟩ | ⟨hadmitted, hend, stage, hstage, hsites, harea⟩
  · refine Or.inl ⟨?_, ?_⟩
    · have hinstalled : (e.admission config).1 = none → (e.installs config).2.1 = none := hinstalled
      unfold installation?
      split
      · rfl
      · rename_i hgiven
        rw [hinstalled hgiven]
        rfl
    · cases result with
      | error name => rfl
      | ok stage => simp only [addBatch, hnone stage rfl]
  · have hadmitted : (e.admission config).1 = none := hadmitted
    have hsites : stage.sites = (e.installs config).1.map Site.summary := hsites
    have harea : stage.area = (e.installs config).2.1 := harea
    have hmemory : b = (e.installs config).2.2 := hend
    obtain rfl : result = .ok stage := hstage
    simp only [installation?, hadmitted, addBatch, harea, hmemory, hsites]
    cases (e.installs config).2.1 with
    | none => exact Or.inl ⟨rfl, rfl⟩
    | some area => exact Or.inr ⟨area, rfl, rfl, rfl, rfl⟩

variable {e config} {installation : Installation}
  (h : e.installation? config = some installation)
include h

theorem installed :
    installation.sites = (e.installs config).1 ∧
    (e.installs config).2.1 = some installation.area ∧
    (e.apply config).2.1.memory = (e.installs config).2.2.memory := by
  rcases apply_cases e config with ⟨hnone, -⟩ | ⟨area, harea, hsome, -, hmemory⟩
  · cases hnone.symm.trans h
  · obtain rfl := Option.some.inj (hsome.symm.trans h)
    exact ⟨rfl, harea, hmemory⟩

theorem map_place_installation :
    installation.sites.map Site.place = (e.admission config).2.sites.map Site.place := by
  rw [(installed h).1]
  exact BreakpointStage.map_place_install ..

theorem clear_installation : installation.sites.Pairwise Site.Clear :=
  Site.pairwise_clear_of_place (map_place_installation h) (sound_admission e config).clear

theorem asked_installation : ∀ site ∈ installation.sites, site.Asked config.breakpoints := by
  intro site hsite
  obtain ⟨other, hother, hbreakpoint, haddress⟩ :=
    Site.exists_of_place (map_place_installation h) hsite
  have hasked : other.Asked config.breakpoints :=
    BreakpointStage.asked_admission _ _ _ _ _ _ other hother
  refine ⟨?_, ?_, ?_⟩
  · exact hbreakpoint ▸ hasked.entry
  · exact hbreakpoint ▸ hasked.active
  · rw [hbreakpoint, haddress]
    exact hasked.target

theorem copied_installation (hm : (e.patched config).memory.Separate)
    (hfree : ∀ r ∈ (e.patched config).memory.mappings,
      r.Apart installation.area.base.toNat (Memory.roundToPages installation.area.size)) :
    ∀ site ∈ installation.armed, BreakpointStage.Copied (e.patched config).memory
      (e.apply config).2.1.memory site := by
  intro site hsite
  obtain ⟨hsites, harea, hmemory⟩ := installed h
  obtain ⟨hsite, harmed⟩ := List.mem_filter.mp hsite
  have hsound := sound_admission e config
  rw [hsites] at hsite
  rw [hmemory, ← BreakpointStage.copied_iff_of_space_eq hsound.space]
  refine BreakpointStage.copied_install _ _ _ ?_ ?_ hsound.clear ?_ hsite
    (decide_eq_true_eq.mp harmed)
  · exact (Memory.separate_iff_of_space_eq hsound.space).mpr hm
  · exact fun site hsite => (hsound.fresh site hsite).of_space_eq hsound.space
  · intro area harea'
    obtain rfl := Option.some.inj (harea.symm.trans harea')
    rw [Memory.mappings_eq_of_space_eq hsound.space]
    exact hfree

end Run

/-! ## The whole life -/

/-- The configuration that is applied, if one is. -/
def Action.config? : Action → Option Config
  | .apply config => some config
  | _ => none

/-- All that is installed, in the order in which it is. -/
def history (e : Engine) : List Action → List Installation
  | [] => []
  | action :: rest => (action.config?.bind e.installation?).toList ++ (e.act action).history rest

section Life
variable (e : Engine)

theorem history_append (list list' : List Action) :
    e.history (list ++ list') = e.history list ++ (e.actions list).history list' := by
  induction list generalizing e with
  | nil => rfl
  | cons action rest ih =>
      show _ ++ (e.act action).history (rest ++ list') = (_ ++ _) ++ _
      rw [ih, List.append_assoc]
      rfl

theorem run_of_mem_history {list : List Action} {installation : Installation}
    (h : installation ∈ e.history list) : ∃ front config back,
      list = front ++ .apply config :: back ∧
      (e.actions front).installation? config = some installation := by
  induction list generalizing e with
  | nil => exact absurd h List.not_mem_nil
  | cons action rest ih =>
      rcases List.mem_append.mp h with h | h
      · obtain ⟨config, hconfig, hinstalled⟩ := Option.bind_eq_some_iff.mp (Option.mem_toList.mp h)
        cases action with
        | apply config' =>
            cases hconfig
            exact ⟨[], _, rest, rfl, hinstalled⟩
        | _ => cases hconfig
      · obtain ⟨front, config, back, rfl, hinstalled⟩ := ih (e.act action) h
        exact ⟨action :: front, config, back, rfl, hinstalled⟩

theorem batches_act (action : Action) : (e.act action).batches =
    e.batches ++ (action.config?.bind e.installation?).toList.map Installation.batch := by
  cases action with
  | apply config =>
      show (e.apply config).2.1.batches = e.batches ++ (e.installation? config).toList.map _
      rcases apply_cases e config with ⟨hnone, hbatches⟩ | ⟨area, -, hsome, hbatches, -⟩
      · rw [hnone, hbatches]
        exact (List.append_nil _).symm
      · rw [hsome, hbatches]
        rfl
  | _ => exact (List.append_nil e.batches).symm

theorem batches_actions (list : List Action) : (e.actions list).batches =
    e.batches ++ (e.history list).map Installation.batch := by
  induction list generalizing e with
  | nil => exact (List.append_nil _).symm
  | cons action rest ih =>
      show ((e.act action).actions rest).batches = _ ++ (_ ++ _ : List Installation).map _
      rw [ih, batches_act, List.map_append, List.append_assoc]

/-- No run that installs anything admits a site that has a byte in common with one that
was armed by an earlier run. -/
def LeavesArmed (list : List Action) : Prop :=
  ∀ front config back, list = front ++ .apply config :: back →
    ((e.actions front).installation? config).isSome = true →
    ∀ installation ∈ e.history front, ∀ other ∈ installation.armed,
      ∀ site ∈ ((e.actions front).admission config).2.sites, other.Clear site

variable {e}

theorem LeavesArmed.front {list list' : List Action} (h : e.LeavesArmed (list ++ list')) :
    e.LeavesArmed list := by
  rintro front config back rfl
  exact h front config (back ++ list') (by rw [List.append_assoc, List.cons_append])

/-- What a run installs spares what earlier runs have armed. -/
theorem spared_history {list : List Action} (h : e.LeavesArmed list) :
    (e.history list).Pairwise Installation.Spared := by
  induction list using List.reverseRecOn with
  | nil => exact List.Pairwise.nil
  | append_singleton list action ih =>
      rw [history_append]
      refine List.pairwise_append.mpr ⟨ih h.front, ?_, fun earlier hearlier later hlater => ?_⟩
      · show (Option.toList _ ++ []).Pairwise _
        cases action.config?.bind (e.actions list).installation? with
        | none => exact List.Pairwise.nil
        | some installation => exact List.pairwise_singleton ..
      · obtain ⟨front, config, back, hlist, hinstalled⟩ :=
          run_of_mem_history (e.actions list) hlater
        obtain ⟨rfl, hcons⟩ : front = [] ∧ action = .apply config := by
          cases front with
          | nil => exact ⟨rfl, (List.cons.inj hlist).1⟩
          | cons first rest =>
              have hlen := congrArg List.length hlist
              simp only [List.length_cons, List.length_append, List.length_nil] at hlen
              omega
        subst hcons
        intro site hsite other hother
        obtain ⟨admitted, hadmitted, hbreakpoint, haddress⟩ :=
          Site.exists_of_place (map_place_installation hinstalled) hsite
        have hsome := Option.isSome_of_eq_some hinstalled
        have hclear := h list config [] rfl hsome earlier hearlier other hother admitted hadmitted
        unfold Site.Clear
        rw [hbreakpoint, haddress]
        exact hclear

/-- It is enough that no two configurations have entries for the same bytes. -/
theorem leavesArmed_of_apart {list : List Action}
    (h : (list.filterMap Action.config?).Pairwise Config.Apart) : e.LeavesArmed list := by
  rintro front config back rfl - installation hinstallation other hother site hsite
  obtain ⟨front', config', back', rfl, hinstalled⟩ := run_of_mem_history e hinstallation
  rw [List.filterMap_append] at h
  have hapart : config'.Apart config := by
    refine (List.pairwise_append.mp h).2.2 _ ?_ _ List.mem_cons_self
    exact List.mem_filterMap.mpr
      ⟨.apply config', List.mem_append_right _ List.mem_cons_self, rfl⟩
  refine hapart other site ?_ ?_
  · exact asked_installation hinstalled other (List.mem_of_mem_filter hother)
  · exact BreakpointStage.asked_admission _ _ _ _ _ _ site hsite

end Life

/-- What an engine installs in the course of its life.  The batches are as they were
installed, no two sites of one have a byte in common, and the slots of the armed ones
hold the bytes that were there.  If no run admits a site on one that is armed already, as
is the case where no two configurations have entries for the same bytes, no two armed
sites have a byte in common, and no site of a later batch, with what is copied from it,
lies on an armed one of an earlier batch. -/
theorem armed_sites_are_apart (memory : Memory) (list : List Action) :
    let fresh : Engine := { memory }
    (fresh.actions list).batches = (fresh.history list).map Installation.batch ∧
    (∀ installation ∈ fresh.history list, installation.sites.Pairwise Site.Clear) ∧
    (∀ front config back installation, list = front ++ .apply config :: back →
      (fresh.actions front).installation? config = some installation →
      let before := ((fresh.actions front).patched config).memory
      before.Separate →
      (∀ r ∈ before.mappings,
        r.Apart installation.area.base.toNat (Memory.roundToPages installation.area.size)) →
      ∀ site ∈ installation.armed, BreakpointStage.Copied before
        ((fresh.actions front).apply config).2.1.memory site) ∧
    ((list.filterMap Action.config?).Pairwise Config.Apart → fresh.LeavesArmed list) ∧
    (fresh.LeavesArmed list →
      ((fresh.history list).flatMap Installation.armed).Pairwise Site.Clear ∧
      (fresh.history list).Pairwise Installation.Spared) := by
  intro fresh
  have hclear : ∀ installation ∈ fresh.history list,
      installation.sites.Pairwise Site.Clear := by
    intro installation hmem
    obtain ⟨front, config, -, -, hinstalled⟩ := run_of_mem_history fresh hmem
    exact clear_installation hinstalled
  refine ⟨batches_actions fresh list, hclear, ?_, leavesArmed_of_apart, fun h => ?_⟩
  · intro front config back installation _ hinstalled before hm hfree
    exact copied_installation hinstalled hm hfree
  · have hspared := spared_history h
    refine ⟨List.pairwise_flatMap.mpr ⟨fun installation hmem => ?_, ?_⟩, hspared⟩
    · exact (hclear installation hmem).filter _
    · refine hspared.imp fun hsparing other hother site hsite => ?_
      exact hsparing site (List.mem_of_mem_filter hsite) other hother

/-! ### Configurations with and without common bytes

One configuration with one breakpoint, applied at two addresses and applied twice
at one. -/

def sampleMemory : Memory where
  mappings := [.ofBytes 0x401000
    [0x55, 0x8B, 0xEC, 0x6A, 0xFF, 0x6A, 0x01, 0x83, 0xC4, 0x08, 0xC3] .executeRead]

def sampleConfig (address : UInt32) : Config where
  breakpoints := [{
    name := "enter"
    addresses := [.absolute address]
    caveSize := 5
    config := .null }]

def sampleEngine : Engine where
  memory := sampleMemory

/-- Applies the configuration at one address, then at another. -/
def sampleActions (address address' : UInt32) : List Action :=
  [.setHandler "BP_enter" defaultHandler, .apply (sampleConfig address),
    .apply (sampleConfig address')]

theorem asked_sampleConfig {site : Site} {address : UInt32}
    (h : site.Asked (sampleConfig address).breakpoints) :
    site.address = address ∧ site.breakpoint.caveSize = 5 := by
  obtain ⟨hentry, -, target, htarget, scope, hresolve⟩ := h
  rw [List.mem_singleton.mp hentry] at htarget ⊢
  obtain rfl : target = .absolute address := List.mem_singleton.mp htarget
  exact ⟨(Except.ok.inj hresolve).symm, rfl⟩

/-- Two applications, five bytes apart: there are two armed sites. -/
theorem sample_armed_sites_are_apart :
    sampleEngine.LeavesArmed (sampleActions 0x401000 0x401005) ∧
    (sampleEngine.actions (sampleActions 0x401000 0x401005)).batches.map (·.sites) =
      [[⟨"enter", 0x401000, some 0x10000020, .armed⟩],
        [⟨"enter", 0x401005, some 0x10001020, .armed⟩]] ∧
    ((sampleEngine.history (sampleActions 0x401000 0x401005)).flatMap
      Installation.armed).Pairwise Site.Clear ∧
    (sampleEngine.actions (sampleActions 0x401000 0x401005)).memory.bytesAt 0x10001020 32 = .ok
      (MachineCode.relocatedSlot [0x6A, 0x01, 0x83, 0xC4, 0x08] 0x401005 0x10001020) := by
  obtain ⟨-, -, hcopied, hconfigs, hapart⟩ :=
    armed_sites_are_apart sampleMemory (sampleActions 0x401000 0x401005)
  have hleaves : sampleEngine.LeavesArmed (sampleActions 0x401000 0x401005) := by
    refine hconfigs (List.pairwise_pair.mpr fun site other hsite hother => ?_)
    obtain ⟨haddress, hsize⟩ := asked_sampleConfig hsite
    obtain ⟨haddress', -⟩ := asked_sampleConfig hother
    refine Or.inl ?_
    rw [haddress, haddress', hsize]
    decide
  refine ⟨hleaves, rfl, (hapart hleaves).1, ?_⟩
  obtain ⟨slot, original, hslot, hbytes, hheld⟩ :=
    hcopied ((sampleActions 0x401000 0x401005).take 2) (sampleConfig 0x401005) [] _ rfl rfl
      (by decide) (by decide) _ List.mem_cons_self
  cases hslot
  cases hbytes
  exact hheld

/-- The same configuration twice: there are two armed sites on the same bytes, and what
the slot of the second one holds is the redirect of the first. -/
theorem applied_twice_is_armed_twice :
    (sampleEngine.actions (sampleActions 0x401000 0x401000)).batches.map (·.sites) =
      [[⟨"enter", 0x401000, some 0x10000020, .armed⟩],
        [⟨"enter", 0x401000, some 0x10001020, .armed⟩]] ∧
    ¬ ((sampleEngine.history (sampleActions 0x401000 0x401000)).flatMap
      Installation.armed).Pairwise Site.Clear ∧
    (sampleEngine.actions (sampleActions 0x401000 0x401000)).memory.bytesAt 0x10001020 32 = .ok
      (MachineCode.relocatedSlot (MachineCode.redirect 0x401000 0x10000000 5) 0x401000
        0x10001020) := by
  exact ⟨rfl, by decide, rfl⟩

end Engine
end CodePatch
