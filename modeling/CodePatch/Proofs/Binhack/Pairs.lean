/-
# Binary hacks, pair by pair

The entries of a stage and their addresses make a list of pairs, and the stage
is one pass over that list (`applyEntries_eq`): each pair asks for a patch, or
for nothing, and the patch is made or it is not (`tried`).

What a pair asks for depends on the pair and on the scope, and of the scope
only on what no patch changes (`Scope.Alike`).  So every pair can be read in
the scope that the stage starts in, before any of them is written.
-/
import CodePatch.Binhack.Stage
import CodePatch.Proofs.Code.Render
import CodePatch.Proofs.Expression.Memory
import CodePatch.Proofs.Memory.Patch

namespace CodePatch

/-! ## Pairs -/

/-- An entry and one of its addresses. -/
structure BinhackPair where
  hack : Binhack
  target : TargetAddress
deriving DecidableEq, Repr

namespace Binhack

/-- The pairs of an entry. -/
def allPairs (hack : Binhack) : List BinhackPair :=
  hack.addresses.map (⟨hack, ·⟩)

/-- The pairs of the entries that are not to be ignored, in order. -/
def pairs (hacks : List Binhack) : List BinhackPair :=
  (hacks.filter (!·.ignore)).flatMap allPairs

theorem pairs_cons (hack : Binhack) (rest : List Binhack) :
    pairs (hack :: rest) = (if hack.ignore then [] else hack.allPairs) ++ pairs rest := by
  unfold pairs
  cases h : hack.ignore with
  | false => simp [h]
  | true => simp [h]

theorem length_pairs (hacks : List Binhack) : (pairs hacks).length = sites hacks := by
  induction hacks with
  | nil => rfl
  | cons hack rest ih =>
      rw [pairs_cons, List.length_append, ih]
      unfold sites
      cases h : hack.ignore with
      | false => simp [h, allPairs]
      | true => simp [h]

/-- Does the entry ask for nothing, because its code is empty? -/
def isCodeless (hack : Binhack) : Bool :=
  match Code.compile hack.code with
  | .ok code => code.isEmpty
  | .error _ => false

theorem isCodeless_of_ok {hack : Binhack} {code : Code} (h : Code.compile hack.code = .ok code) :
    hack.isCodeless = code.isEmpty := by
  rw [isCodeless, h]

/-- Does the entry count as ignored? -/
def isIdle (hack : Binhack) : Bool :=
  hack.ignore || hack.isCodeless

/-- The number of pairs that the entry takes out of the total. -/
def withdrawn (hack : Binhack) : Nat :=
  if hack.ignore then 0
  else if hack.isCodeless then hack.addresses.length
  else 0

end Binhack

/-! ## What a pair asks for -/

/-- Bytes to be written, their place, and the bytes that have to be there before. -/
structure BinhackPatch where
  address : UInt32
  new : List UInt8
  expected : Option (List UInt8)
deriving DecidableEq, Repr

/-- The patch that puts code at an address, if both codes can be rendered there. -/
def BinhackPatch.ofCode? (scope : Scope) (code : Code) (expected : Option Code)
    (address : UInt32) : Option BinhackPatch := do
  let new ← (code.render scope address).1.toOption
  let old ← (BinhackStage.expectedBytes scope expected address new.length).1.toOption
  return ⟨address, new, old⟩

namespace BinhackPair

/-- The code that the entry of a pair expects to find. -/
def expected? (pair : BinhackPair) : Option Code :=
  (BinhackStage.compileExpected pair.hack.label pair.hack.expected).1

/-- Where the code of a pair goes, and the code; `none` if there is no code or no place. -/
def placed? (scope : Scope) (pair : BinhackPair) : Option (UInt32 × Code) := do
  let code ← (Code.compile pair.hack.code).toOption
  let address ← (pair.target.resolve scope).toOption
  if address = 0 then none else return (address, code)

/-- The patch that a pair asks for, if it asks for one. -/
def patch? (scope : Scope) (pair : BinhackPair) : Option BinhackPatch :=
  if pair.hack.isCodeless then none
  else (pair.placed? scope).bind fun (address, code) =>
    BinhackPatch.ofCode? scope code pair.expected? address

end BinhackPair

namespace BinhackStage

/-! ## Without the journal -/

/-- Tries a patch, if there is one: whether it is made, and the memory after it. -/
def tried (m : Memory) : Option BinhackPatch → Bool × Memory
  | none => (false, m)
  | some patch =>
    let outcome := m.patch patch.address patch.expected patch.new
    (outcome.result.toBool, outcome.memory)

/-- Tries the patches of pairs one after the other. -/
def triedAll (scope : Scope) (m : Memory) : List BinhackPair → List Bool × Memory
  | [] => ([], m)
  | pair :: rest =>
    let first := tried m (pair.patch? scope)
    let later := triedAll scope first.2 rest
    (first.1 :: later.1, later.2)

@[simp] theorem length_triedAll (scope : Scope) (m : Memory) (pairs : List BinhackPair) :
    (triedAll scope m pairs).1.length = pairs.length := by
  induction pairs generalizing m with
  | nil => rfl
  | cons pair rest ih => exact congrArg (· + 1) (ih _)

theorem triedAll_append (scope : Scope) (m : Memory) (front back : List BinhackPair) :
    triedAll scope m (front ++ back) =
      ((triedAll scope m front).1 ++ (triedAll scope (triedAll scope m front).2 back).1,
        (triedAll scope (triedAll scope m front).2 back).2) := by
  induction front generalizing m with
  | nil => rfl
  | cons pair rest ih =>
      show (_ :: (triedAll scope _ (rest ++ back)).1, (triedAll scope _ (rest ++ back)).2) = _
      rw [ih]
      rfl

theorem triedAll_of_none {scope : Scope} {m : Memory} {pairs : List BinhackPair}
    (h : ∀ pair ∈ pairs, pair.patch? scope = none) :
    triedAll scope m pairs = (List.replicate pairs.length false, m) := by
  induction pairs with
  | nil => rfl
  | cons pair rest ih =>
      simp only [triedAll, h pair List.mem_cons_self, tried,
        ih fun other hmem => h other (List.mem_cons_of_mem _ hmem)]
      rfl

theorem surroundings_tried (m : Memory) (patch : Option BinhackPatch) :
    (tried m patch).2.surroundings = m.surroundings := by
  cases patch with
  | none => rfl
  | some patch => exact Memory.surroundings_patch m patch.address patch.expected patch.new

theorem surroundings_triedAll (scope : Scope) (m : Memory) (pairs : List BinhackPair) :
    (triedAll scope m pairs).2.surroundings = m.surroundings := by
  induction pairs generalizing m with
  | nil => rfl
  | cons pair rest ih => exact (ih _).trans (surroundings_tried m _)

/-! ## Scopes that are alike -/

section Alike
variable {scope scope' : Scope}

theorem resolve_of_alike (h : scope.Alike scope') (target : TargetAddress) :
    target.resolve scope' = target.resolve scope := by
  cases target with
  | absolute address => rfl
  | expression text => simp only [TargetAddress.resolve, Expression.evaluate_of_alike h]

theorem expectedBytes_of_alike (h : scope.Alike scope') (expected : Option Code)
    (address : UInt32) (size : Nat) :
    expectedBytes scope' expected address size = expectedBytes scope expected address size := by
  have hoptions : scope'.options = scope.options := by rw [h.fields]
  cases expected with
  | none => rfl
  | some code => simp only [expectedBytes, hoptions, Code.render_of_alike h]

end Alike

/-! ## The stage is one pass over the pairs -/

section Stage
variable {s : Setting} {b : Bench} {m : Memory}

theorem scope_alike (s : Setting) (h : b.memory.surroundings = m.surroundings) :
    (s.scope m).Alike (s.scope b.memory) :=
  Scope.Alike.ofPatch s.symbols s.options h

theorem write_eq (h : b.memory.surroundings = m.surroundings) (code : Code)
    (expected : Option Code) (address : UInt32) :
    let patch := BinhackPatch.ofCode? (s.scope m) code expected address
    (write s b code expected address).1.toBool = (tried b.memory patch).1 ∧
      (write s b code expected address).2.memory = (tried b.memory patch).2 := by
  have halike := scope_alike s h
  simp only [write, BinhackPatch.ofCode?, Code.render_of_alike halike,
    expectedBytes_of_alike halike]
  rcases code.render (s.scope m) address with ⟨e | new, said⟩
  · exact ⟨rfl, rfl⟩
  · simp only [Except.toOption, Option.bind_eq_bind, Option.bind_some]
    rcases expectedBytes (s.scope m) expected address new.length with ⟨e | old, more⟩
    · exact ⟨rfl, rfl⟩
    · refine ⟨?_, rfl⟩
      show (Except.mapError _ (b.memory.patch address old new).result).toBool =
        (b.memory.patch address old new).result.toBool
      cases (b.memory.patch address old new).result with
      | error e => rfl
      | ok u => rfl

theorem applyAt_eq (h : b.memory.surroundings = m.surroundings) {hack : Binhack} {code : Code}
    (hcode : Code.compile hack.code = .ok code) (hsome : code.isEmpty = false) (index : Nat)
    (target : TargetAddress) {expected : Option Code}
    (hexpected : (compileExpected hack.label hack.expected).1 = expected) :
    let patch := BinhackPair.patch? (s.scope m) ⟨hack, target⟩
    (applyAt s b hack.label code expected index target).1 = (tried b.memory patch).1 ∧
      (applyAt s b hack.label code expected index target).2.memory = (tried b.memory patch).2 := by
  have hcodeless : hack.isCodeless = false := (Binhack.isCodeless_of_ok hcode).trans hsome
  simp only [applyAt, BinhackPair.patch?, BinhackPair.placed?, BinhackPair.expected?,
    hexpected, hcodeless, hcode, resolve_of_alike (scope_alike s h)]
  cases target.resolve (s.scope m) with
  | error e => exact ⟨rfl, rfl⟩
  | ok address =>
      by_cases hzero : address = 0
      · rw [hzero]
        exact ⟨rfl, rfl⟩
      · simp only [if_neg hzero, Except.toOption, Option.bind_eq_bind, Option.bind_some,
          Option.pure_def, Bool.false_eq_true, if_false]
        exact write_eq h code expected address

theorem applyEach_eq (h : b.memory.surroundings = m.surroundings) {hack : Binhack} {code : Code}
    (hcode : Code.compile hack.code = .ok code) (hsome : code.isEmpty = false) (index : Nat)
    (targets : List TargetAddress) {expected : Option Code}
    (hexpected : (compileExpected hack.label hack.expected).1 = expected) :
    let all := triedAll (s.scope m) b.memory (targets.map (⟨hack, ·⟩))
    (applyEach s b hack.label code expected index targets).1 = all.1 ∧
      (applyEach s b hack.label code expected index targets).2.memory = all.2 := by
  induction targets generalizing b index with
  | nil => exact ⟨rfl, rfl⟩
  | cons target rest ih =>
      obtain ⟨hwritten, hmemory⟩ := applyAt_eq (s := s) h hcode hsome index target hexpected
      have hrest := ih (b := (applyAt s b hack.label code expected index target).2)
        (by rw [hmemory, surroundings_tried]; exact h) (index + 1)
      rw [hmemory] at hrest
      exact ⟨congrArg₂ List.cons hwritten hrest.1, hrest.2⟩

end Stage

end BinhackStage

/-! ## What is counted -/

namespace BinhackOutcome

/-- For each pair of the entry, whether its patch was made. -/
def verdicts : BinhackOutcome → List Bool
  | .ignored => []
  | .codeless sites => List.replicate sites false
  | .tried written => written

theorem applied_eq (outcome : BinhackOutcome) : outcome.applied = outcome.verdicts.count true := by
  cases outcome with
  | ignored => rfl
  | codeless sites => exact (List.count_eq_zero.mpr fun h => by simp [verdicts] at h).symm
  | tried written => rfl

theorem failed_add_withdrawn (outcome : BinhackOutcome) :
    outcome.failed + outcome.withdrawn = outcome.verdicts.count false := by
  cases outcome with
  | ignored => rfl
  | codeless sites =>
      rw [verdicts, List.count_replicate_self]
      exact Nat.zero_add sites
  | tried written => rfl

theorem sum_applied (outcomes : List BinhackOutcome) :
    (outcomes.map applied).foldr (· + ·) 0 = (outcomes.map verdicts).flatten.count true := by
  induction outcomes with
  | nil => rfl
  | cons outcome rest ih =>
      rw [List.map_cons, List.foldr_cons, ih, applied_eq, List.map_cons, List.flatten_cons,
        List.count_append]

theorem sum_failed (outcomes : List BinhackOutcome) :
    (outcomes.map failed).foldr (· + ·) 0 + (outcomes.map withdrawn).foldr (· + ·) 0 =
      (outcomes.map verdicts).flatten.count false := by
  induction outcomes with
  | nil => rfl
  | cons outcome rest ih =>
      have hfirst := failed_add_withdrawn outcome
      rw [List.map_cons, List.foldr_cons, List.map_cons, List.foldr_cons, List.map_cons,
        List.flatten_cons, List.count_append, ← ih]
      omega

end BinhackOutcome

namespace BinhackStage

section Entries
variable {s : Setting} {b : Bench} {m : Memory}

theorem patch?_of_not_ok {scope : Scope} {pair : BinhackPair} {e : CodeError}
    (h : Code.compile pair.hack.code = .error e) : pair.patch? scope = none := by
  simp only [BinhackPair.patch?, BinhackPair.placed?, h]
  split
  · rfl
  · rfl

theorem patch?_of_codeless {scope : Scope} {pair : BinhackPair}
    (h : pair.hack.isCodeless = true) : pair.patch? scope = none := by
  rw [BinhackPair.patch?, if_pos h]

/-- An entry is tried pair by pair. -/
theorem applyEntry_eq (h : b.memory.surroundings = m.surroundings) (index : Nat)
    (hack : Binhack) :
    let all := triedAll (s.scope m) b.memory (if hack.ignore then [] else hack.allPairs)
    (applyEntry s b index hack).1.verdicts = all.1 ∧
      (applyEntry s b index hack).2.memory = all.2 := by
  cases hignore : hack.ignore with
  | true =>
      rw [applyEntry, hignore]
      exact ⟨rfl, rfl⟩
  | false =>
      -- without code there is no pair that asks for anything
      have hnone : (∀ target, BinhackPair.patch? (s.scope m) ⟨hack, target⟩ = none) →
          triedAll (s.scope m) b.memory hack.allPairs =
            (List.replicate hack.addresses.length false, b.memory) := by
        intro hall
        rw [triedAll_of_none (by simpa [Binhack.allPairs] using fun target _ => hall target),
          Binhack.allPairs, List.length_map]
      rw [applyEntry, hignore]
      cases hcode : Code.compile hack.code with
      | error e =>
          show List.replicate hack.addresses.length false =
              (triedAll (s.scope m) b.memory hack.allPairs).1 ∧
            b.memory = (triedAll (s.scope m) b.memory hack.allPairs).2
          rw [hnone fun target => patch?_of_not_ok hcode]
          exact ⟨rfl, rfl⟩
      | ok code =>
          cases hsome : code.isEmpty with
          | true =>
              have hcodeless := (Binhack.isCodeless_of_ok hcode).trans hsome
              simp only [hsome, if_true, Bool.false_eq_true, if_false,
                hnone fun target => patch?_of_codeless hcodeless]
              exact ⟨rfl, rfl⟩
          | false =>
              simp only [hsome]
              exact applyEach_eq (b := b.say _) h hcode hsome index hack.addresses rfl

theorem applyEntry_counts (s : Setting) (b : Bench) (index : Nat) (hack : Binhack) :
    (applyEntry s b index hack).1.withdrawn = hack.withdrawn ∧
      (applyEntry s b index hack).1.isIgnored = hack.isIdle := by
  unfold applyEntry Binhack.withdrawn Binhack.isIdle Binhack.isCodeless
  cases hack.ignore with
  | true => exact ⟨rfl, rfl⟩
  | false =>
      cases Code.compile hack.code with
      | error e => exact ⟨rfl, rfl⟩
      | ok code =>
          cases hsome : code.isEmpty with
          | true =>
              simp only [hsome]
              exact ⟨rfl, rfl⟩
          | false =>
              simp only [hsome]
              exact ⟨rfl, rfl⟩

theorem applyEntries_eq (h : b.memory.surroundings = m.surroundings) (index : Nat)
    (hacks : List Binhack) :
    let all := triedAll (s.scope m) b.memory (Binhack.pairs hacks)
    ((applyEntries s b index hacks).1.map BinhackOutcome.verdicts).flatten = all.1 ∧
      (applyEntries s b index hacks).2.memory = all.2 := by
  induction hacks generalizing b index with
  | nil => exact ⟨rfl, rfl⟩
  | cons hack rest ih =>
      obtain ⟨hwritten, hmemory⟩ := applyEntry_eq (s := s) h index hack
      have hrest := ih (b := (applyEntry s b index hack).2)
        (by rw [hmemory, surroundings_triedAll]; exact h) (next index hack)
      rw [hmemory] at hrest
      rw [Binhack.pairs_cons, triedAll_append]
      exact ⟨congrArg₂ List.append hwritten hrest.1, hrest.2⟩

theorem applyEntries_counts (s : Setting) (b : Bench) (index : Nat) (hacks : List Binhack) :
    (applyEntries s b index hacks).1.map BinhackOutcome.withdrawn =
        hacks.map Binhack.withdrawn ∧
      (applyEntries s b index hacks).1.map BinhackOutcome.isIgnored =
        hacks.map Binhack.isIdle := by
  induction hacks generalizing b index with
  | nil => exact ⟨rfl, rfl⟩
  | cons hack rest ih =>
      obtain ⟨hwithdrawn, hidle⟩ := applyEntry_counts s b index hack
      obtain ⟨hwithdrawns, hidles⟩ := ih (applyEntry s b index hack).2 (next index hack)
      exact ⟨congrArg₂ List.cons hwithdrawn hwithdrawns, congrArg₂ List.cons hidle hidles⟩

end Entries

/-- For each pair, in order, whether the stage makes its patch. -/
def verdicts (symbols : Symbols) (options : Options) (b : Bench) (hacks : List Binhack) :
    List Bool :=
  ((applyEntries ⟨symbols, options, Binhack.sites hacks⟩
    (b.say [.info "Applying binary hacks..."]) 1 hacks).1.map BinhackOutcome.verdicts).flatten

/-- The report of a stage, from the entries and the verdicts on their pairs. -/
def reportOn (hacks : List Binhack) (verdicts : List Bool) : StageReport :=
  let withdrawn := (hacks.map Binhack.withdrawn).foldr (· + ·) 0
  if Binhack.sites hacks = 0 then {}
  else {
    total := Binhack.sites hacks - withdrawn
    applied := verdicts.count true
    failed := verdicts.count false - withdrawn
    ignored := hacks.countP Binhack.isIdle }

theorem reportOf_eq {hacks : List Binhack} {outcomes : List BinhackOutcome}
    (hsome : Binhack.sites hacks ≠ 0)
    (hwithdrawn : outcomes.map BinhackOutcome.withdrawn = hacks.map Binhack.withdrawn)
    (hidle : outcomes.map BinhackOutcome.isIgnored = hacks.map Binhack.isIdle) :
    reportOf (Binhack.sites hacks) outcomes =
      reportOn hacks (outcomes.map BinhackOutcome.verdicts).flatten := by
  have hfailed : (outcomes.map BinhackOutcome.failed).foldr (· + ·) 0 =
      (outcomes.map BinhackOutcome.verdicts).flatten.count false -
        (hacks.map Binhack.withdrawn).foldr (· + ·) 0 := by
    rw [← BinhackOutcome.sum_failed, hwithdrawn, Nat.add_sub_cancel]
  have hignored : outcomes.countP BinhackOutcome.isIgnored = hacks.countP Binhack.isIdle := by
    have hcount := congrArg (List.countP id) hidle
    rwa [List.countP_map, List.countP_map] at hcount
  rw [reportOf, reportOn, if_neg hsome, hwithdrawn, BinhackOutcome.sum_applied, hfailed, hignored]

section Run
variable (symbols : Symbols) (options : Options) (b : Bench) (hacks : List Binhack)

/-- The stage tries the pairs one after the other, in the scope that it starts in. -/
theorem run_eq :
    let all := triedAll (.ofPatch symbols options b.memory) b.memory (Binhack.pairs hacks)
    verdicts symbols options b hacks = all.1 ∧ (run symbols options b hacks).2.memory = all.2 ∧
      (run symbols options b hacks).1 = reportOn hacks (verdicts symbols options b hacks) := by
  have hall := applyEntries_eq (s := ⟨symbols, options, Binhack.sites hacks⟩)
    (b := b.say [.info "Applying binary hacks..."]) (m := b.memory) rfl 1 hacks
  obtain ⟨hwithdrawn, hidle⟩ := applyEntries_counts ⟨symbols, options, Binhack.sites hacks⟩
    (b.say [.info "Applying binary hacks..."]) 1 hacks
  refine ⟨hall.1, ?_⟩
  by_cases hsites : Binhack.sites hacks = 0
  · have hempty : Binhack.pairs hacks = [] :=
      List.length_eq_zero_iff.mp ((Binhack.length_pairs hacks).trans hsites)
    rw [run, if_pos hsites, reportOn, if_pos hsites, hempty]
    exact ⟨rfl, rfl⟩
  · rw [run, if_neg hsites]
    exact ⟨hall.2, reportOf_eq hsites hwithdrawn hidle⟩

theorem length_verdicts :
    (verdicts symbols options b hacks).length = (Binhack.pairs hacks).length := by
  rw [(run_eq symbols options b hacks).1, length_triedAll]

theorem applied_run :
    (run symbols options b hacks).1.applied = (verdicts symbols options b hacks).count true := by
  rw [(run_eq symbols options b hacks).2.2, reportOn]
  split
  · rename_i hsites
    have hempty : verdicts symbols options b hacks = [] := by
      rw [← List.length_eq_zero_iff, length_verdicts, Binhack.length_pairs, hsites]
    rw [hempty]
    rfl
  · rfl

end Run

end BinhackStage
end CodePatch
