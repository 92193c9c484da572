/-
# Questions come before breakpoints

Finding the handlers of breakpoints is asking about the missing ones in turn, up to
the first one that is refused (`askAll`), or about none, if nobody is to be asked
(`consult`).  All of them are found before any breakpoint is installed.  So a run
that is given up leaves everything as the caves and binary hacks of its
configuration left it: there is no batch more, and nothing is allocated, written or
protected for one (`questions_precede_breakpoints`).

What a prompter is asked is told by its own record, which differs with where the
answers come from: a console repeats its question until it understands the answer.
Where the answers are known beforehand, the names asked about are given outright
(`upToRefused`).
-/
import CodePatch.Proofs.Breakpoint.Resolve
import CodePatch.Proofs.Engine.Counts

namespace CodePatch

/-! ## Asking -/

namespace Prompter

/-- Asks about names one after the other, up to the first that is refused; returns that one. -/
def askAll (p : Prompter) : List String → Option String × Prompter
  | [] => (none, p)
  | name :: rest =>
    let (agreed, p) := p.ask name
    if agreed then p.askAll rest else (some name, p)

/-- The name that is refused, if the answers are known and all agree behind them. -/
def refused? (answers : List Bool) (names : List String) : Option String :=
  (answers.idxOf? false).bind (names[·]?)

/-- The names up to the one that is refused. -/
def upToRefused (answers : List Bool) (names : List String) : List String :=
  match answers.idxOf? false with
  | some i => names.take (i + 1)
  | none => names

theorem askAll_known (answers : List Bool) (asked names : List String) :
    let outcome := askAll ⟨.known answers, asked⟩ names
    outcome.1 = refused? answers names ∧ outcome.2.asked = asked ++ upToRefused answers names := by
  induction names generalizing answers asked with
  | nil =>
      refine ⟨?_, ?_⟩
      · unfold refused?
        cases answers.idxOf? false <;> rfl
      · unfold upToRefused
        cases answers.idxOf? false <;> exact (List.append_nil asked).symm
  | cons name rest ih =>
      cases answers with
      | nil =>
          obtain ⟨hrefused, hasked⟩ := ih [] (asked ++ [name])
          refine ⟨hrefused, hasked.trans ?_⟩
          exact List.append_assoc ..
      | cons answer answers =>
          cases answer with
          | false =>
              exact ⟨rfl, rfl⟩
          | true =>
              obtain ⟨hrefused, hasked⟩ := ih answers (asked ++ [name])
              have hindex : (true :: answers).idxOf? false = (answers.idxOf? false).map (· + 1) :=
                List.idxOf?_cons
              refine ⟨hrefused.trans ?_, hasked.trans ?_⟩
              · unfold refused?
                rw [hindex]
                cases answers.idxOf? false <;> rfl
              · unfold upToRefused
                rw [hindex, List.append_assoc]
                cases answers.idxOf? false <;> rfl

end Prompter

namespace Engine

section Missing
variable (symbols : Symbols) (handlers : Handlers) (policy : SymbolPolicy)

/-- Is there nobody for the breakpoint to call: no handler, or no code cave if it names one? -/
def isOrphan (bp : Breakpoint) : Bool :=
  match bp.caveName? with
  | some cave => (symbols.get? (Symbols.caveName cave)).isNone
  | none => (handlers.lookup bp.handlerName).isNone

/-- The names of the handlers that active entries miss, in the order of the entries. -/
def missingNames (breakpoints : List Breakpoint) : List String :=
  ((breakpoints.filter Breakpoint.isActive).filter (isOrphan symbols handlers)).map
    Breakpoint.handlerName

/-- Asks whoever is to be asked, if anyone is. -/
def consult (prompter : Option Prompter) (names : List String) :
    Option String × Option Prompter :=
  match policy, prompter with
  | .prompt, some p => ((p.askAll names).1, some (p.askAll names).2)
  | _, prompter => (none, prompter)

theorem isOrphan_eq (bp : Breakpoint) :
    isOrphan symbols handlers bp = (handler? symbols handlers bp).isNone := by
  unfold isOrphan handler?
  cases bp.caveName? with
  | none => rfl
  | some cave => exact Option.isNone_map.symm

theorem consult_cons (prompter : Option Prompter) (name : String) (names : List String) :
    consult policy prompter (name :: names) =
      match (missing policy name prompter).1.refused? with
      | some refused => (some refused, (missing policy name prompter).2)
      | none => consult policy (missing policy name prompter).2 names := by
  cases policy with
  | warn => rfl
  | prompt =>
      cases prompter with
      | none => rfl
      | some p =>
          simp only [consult, missing, Prompter.askAll]
          rcases p.ask name with ⟨_ | _, p'⟩
          · rfl
          · rfl

/-- Finding handlers is asking about those that are missing. -/
theorem resolveAll_resolver (prompter : Option Prompter) (breakpoints : List Breakpoint) :
    Admission.resolveAll (resolver symbols handlers policy) prompter breakpoints =
      consult policy prompter
        ((breakpoints.filter (isOrphan symbols handlers)).map Breakpoint.handlerName) := by
  induction breakpoints generalizing prompter with
  | nil =>
      cases policy with
      | warn => rfl
      | prompt => cases prompter <;> rfl
  | cons bp rest ih =>
      rw [Admission.resolveAll, List.filter_cons, isOrphan_eq, resolver]
      cases handler? symbols handlers bp with
      | some handler => exact ih prompter
      | none =>
          have hcons := consult_cons policy prompter bp.handlerName
            ((rest.filter (isOrphan symbols handlers)).map Breakpoint.handlerName)
          rw [← ih] at hcons
          exact hcons.symm

end Missing

/-! ## A whole run -/

section Run
variable (e : Engine) (config : Config)

theorem admission_consults :
    let p := e.patched config
    let consulted := consult p.policy p.prompter
      (missingNames p.symbols p.handlers config.breakpoints)
    (e.admission config).1 = consulted.1 ∧ (e.admission config).2.resolver = consulted.2 ∧
      p.memory.Queried (e.admission config).2.bench.memory := by
  intro p consulted
  have hall := Admission.admitAll_resolves
    ⟨p.symbols, config.options, Breakpoint.sites config.breakpoints⟩
    (resolver p.symbols p.handlers p.policy)
    { resolver := p.prompter,
      bench := Bench.say ⟨p.memory, []⟩ [.info "Setting up breakpoints..."] }
    1 config.breakpoints
  rw [resolveAll_resolver] at hall
  exact hall

/-- A run that has breakpoints goes as its admission does. -/
theorem apply_of_admission (hsome : Breakpoint.pairs config.breakpoints ≠ []) :
    (e.apply config).2.1.prompter = (e.admission config).2.resolver ∧
    ((e.admission config).1 = none → ∃ report, (e.apply config).1 = .ok report) ∧
    ∀ name, (e.admission config).1 = some name →
      (e.apply config).1 = .error (.aborted name) ∧
      (e.apply config).2.1 = { e.patched config with
        memory := (e.admission config).2.bench.memory
        prompter := (e.admission config).2.resolver } := by
  have hsites : Breakpoint.sites config.breakpoints ≠ 0 := by
    rw [← Breakpoint.length_pairs]
    exact fun h => hsome (List.length_eq_zero_iff.mp h)
  have hengine : (e.apply config).2.1 = ((e.patched config).applyBreakpoints config).2.1 :=
    apply_eq e config
  rw [hengine, result_apply]
  simp only [applyBreakpoints]
  rcases hadmission : e.admission config with ⟨_ | name, a⟩
  · rw [BreakpointStage.run_of_admitted _ hsites hadmission]
    refine ⟨?_, fun _ => ⟨_, rfl⟩, ?_⟩
    · simp only [addBatch]
      split <;> rfl
    · intro name h
      cases h
  · rw [BreakpointStage.run_of_refused _ hsites hadmission]
    refine ⟨rfl, ?_, ?_⟩
    · intro h
      cases h
    · intro other h
      cases h
      exact ⟨rfl, rfl⟩

/-- A run that has breakpoints is given up if and only if somebody refuses to go on, and then
it has only queried memory for them. -/
theorem apply_consults (hsome : Breakpoint.pairs config.breakpoints ≠ []) :
    let p := e.patched config
    let consulted := consult e.policy e.prompter
      (missingNames p.symbols p.handlers config.breakpoints)
    (e.apply config).2.1.prompter = consulted.2 ∧
    (∀ cause, (e.apply config).1 = .error cause ↔
      ∃ name, consulted.1 = some name ∧ cause = .aborted name) ∧
    ∀ cause, (e.apply config).1 = .error cause → ∃ count prompter,
      (e.apply config).2.1 = { p with memory := p.memory.spend .query count, prompter } := by
  intro p consulted
  obtain ⟨hresolver, hgiven, hrefused⟩ := apply_of_admission e config hsome
  obtain ⟨hname, hasked, count, hmemory⟩ := admission_consults e config
  have hname : (e.admission config).1 = consulted.1 := hname
  refine ⟨hresolver.trans hasked, ?_⟩
  rw [← hname]
  cases hend : (e.admission config).1 with
  | none =>
      obtain ⟨report, hok⟩ := hgiven hend
      have hnever : ∀ cause, (e.apply config).1 ≠ .error cause := by
        intro cause hcause
        cases hok.symm.trans hcause
      refine ⟨fun cause => ⟨fun h => absurd h (hnever cause), ?_⟩,
        fun cause h => absurd h (hnever cause)⟩
      rintro ⟨name, h, -⟩
      cases h
  | some name =>
      obtain ⟨herror, hengine⟩ := hrefused name hend
      rw [hmemory] at hengine
      refine ⟨fun cause => ⟨fun h => ?_, ?_⟩, fun cause _ => ⟨count, _, hengine⟩⟩
      · exact ⟨name, rfl, Except.error.inj (h.symm.trans herror)⟩
      · rintro ⟨_, ⟨⟩, rfl⟩
        exact herror

end Run

/-- Whether a run goes on without the handlers that it misses is asked before any breakpoint
is installed, and about just these, in order, up to the first one that is refused.  Nobody is
asked where the policy is to warn, or where there is nobody to ask.  A run is given up if and
only if one is refused; then memory was only queried since the caves and binary hacks were
applied, and nothing else is different. -/
theorem questions_precede_breakpoints (e : Engine) (config : Config)
    (hsome : Breakpoint.pairs config.breakpoints ≠ []) :
    let p := e.patched config
    let names := missingNames p.symbols p.handlers config.breakpoints
    let result := (e.apply config).1
    let after := (e.apply config).2.1
    (e.policy = .warn ∨ e.prompter = none →
      after.prompter = e.prompter ∧ ∀ cause, result ≠ .error cause) ∧
    (∀ prompter, e.policy = .prompt → e.prompter = some prompter →
      after.prompter = some (prompter.askAll names).2 ∧
      ∀ cause, result = .error cause ↔
        ∃ name, (prompter.askAll names).1 = some name ∧ cause = .aborted name) ∧
    (∀ answers asked, e.policy = .prompt → e.prompter = some ⟨.known answers, asked⟩ →
      (∃ prompter, after.prompter = some prompter ∧
        prompter.asked = asked ++ Prompter.upToRefused answers names) ∧
      ∀ cause, result = .error cause ↔
        ∃ name, Prompter.refused? answers names = some name ∧ cause = .aborted name) ∧
    ∀ cause, result = .error cause → after.batches = e.batches ∧ ∃ count prompter,
      after = { p with memory := p.memory.spend .query count, prompter } := by
  intro p names result after
  obtain ⟨hprompter, herror, hunchanged⟩ := apply_consults e config hsome
  refine ⟨fun hnobody => ?_, fun prompter hpolicy hsomeone => ?_,
    fun answers asked hpolicy hsomeone => ?_, fun cause hcause => ?_⟩
  · have hconsult : consult e.policy e.prompter names = (none, e.prompter) := by
      rcases hnobody with hpolicy | hnobody
      · rw [hpolicy]
        rfl
      · rw [hnobody]
        cases e.policy <;> rfl
    rw [hconsult] at hprompter herror
    refine ⟨hprompter, fun cause hcause => ?_⟩
    obtain ⟨name, hname, -⟩ := (herror cause).mp hcause
    cases hname
  · rw [hpolicy, hsomeone] at hprompter herror
    exact ⟨hprompter, herror⟩
  · rw [hpolicy, hsomeone] at hprompter herror
    obtain ⟨hrefused, hasked⟩ := Prompter.askAll_known answers asked names
    refine ⟨⟨_, hprompter, hasked⟩, fun cause => ?_⟩
    rw [← hrefused]
    exact herror cause
  · obtain ⟨count, prompter, hafter⟩ := hunchanged cause hcause
    refine ⟨?_, count, prompter, hafter⟩
    rw [show after = _ from hafter]
    rfl

/-- Someone who goes on without the first handler and not without the second. -/
def promptedEngine : Engine where
  memory := sampleMemory
  policy := .prompt
  prompter := some { answers := .known [true, false] }

/-- Four breakpoints without handlers, of which one is too small. -/
def promptedConfig : Config where
  breakpoints := [("first", 5), ("small", 4), ("codecave:gone#2", 27), ("last", 5)].map
    fun (name, caveSize) => {
      name
      addresses := [.absolute 0x401000]
      caveSize
      config := .null }

theorem sample_questions_precede_breakpoints :
    (∃ prompter, (promptedEngine.apply promptedConfig).2.1.prompter = some prompter ∧
      prompter.asked = ["BP_first", "codecave:gone"]) ∧
    (promptedEngine.apply promptedConfig).1 = .error (.aborted "codecave:gone") ∧
    (promptedEngine.apply promptedConfig).2.1.batches = [] := by
  obtain ⟨-, -, hknown, hgiven⟩ :=
    questions_precede_breakpoints promptedEngine promptedConfig (List.cons_ne_nil _ _)
  obtain ⟨hasked, hcause⟩ := hknown [true, false] [] rfl rfl
  have hrefused := (hcause (.aborted "codecave:gone")).mpr ⟨_, rfl, rfl⟩
  exact ⟨hasked, hrefused, (hgiven _ hrefused).1⟩

end Engine
end CodePatch
