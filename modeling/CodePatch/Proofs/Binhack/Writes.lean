/-
# Binary hacks are whole writes, one after the other

Where no access fails by plan, what a stage of binary hacks leaves in memory is
known from its verdicts: the pairs whose patch is made lay their code over the
old bytes, in order, and nothing else happens (`stage_is_a_fold_of_writes`).  A
pair is written whole or not at all, and never over bytes other than the ones
that it expects.

One pair is `tried_quiet`; `triedAll_quiet` is all of them, by induction on the
pairs, where the contents that a pair finds are those that the pairs before it
left behind.
-/
import CodePatch.Proofs.Binhack.Pairs
import CodePatch.Proofs.Memory.Faultless

namespace CodePatch

open Memory (Quiet OnlyBytes)

namespace BinhackPair

/-- Where the code of a pair goes, and the bytes that it becomes there; `none` if
there is no code or no place, or if the code is malformed. -/
def rendered? (scope : Scope) (pair : BinhackPair) : Option (UInt32 × List UInt8) :=
  (pair.placed? scope).bind fun (address, code) =>
    (code.render scope address).1.toOption.map (address, ·)

/-- The bytes at `address` are the ones that the pair expects, as far as they can be
compared with `size` new ones. -/
def Matched (scope : Scope) (pair : BinhackPair) (contents : Contents) (address : UInt32)
    (size : Nat) : Prop :=
  ∀ text expected old, pair.hack.expected = some text → Code.compile text = .ok expected →
    expected.size scope.options = size → (expected.render scope address).1 = .ok old →
    ∀ k (hk : k < old.length), contents (address.toNat + k) = some old[k]

/-- The contents after a pair with a verdict: the code is laid over them if it was written. -/
def laid (scope : Scope) (contents : Contents) (step : BinhackPair × Bool) : Contents :=
  if step.2 then
    (step.1.rendered? scope).elim contents fun (address, bytes) =>
      contents.overlaid address.toNat bytes
  else contents

variable {scope : Scope} {pair : BinhackPair} {patch : BinhackPatch}

theorem ok_of_toOption {ε α : Type} {x : Except ε α} {a : α} (h : x.toOption = some a) :
    x = .ok a := by
  cases x with
  | error e => cases h
  | ok value => exact congrArg Except.ok (Option.some.inj h)

theorem patch?_eq_some (h : pair.patch? scope = some patch) :
    pair.rendered? scope = some (patch.address, patch.new) ∧
    (BinhackStage.expectedBytes scope pair.expected? patch.address patch.new.length).1 =
      .ok patch.expected := by
  unfold patch? at h
  split at h
  · cases h
  · obtain ⟨⟨address, code⟩, hplaced, hpatch⟩ := Option.bind_eq_some_iff.mp h
    obtain ⟨new, hnew, hrest⟩ := Option.bind_eq_some_iff.mp hpatch
    obtain ⟨old, hold, heq⟩ := Option.bind_eq_some_iff.mp hrest
    cases heq
    refine ⟨?_, ok_of_toOption hold⟩
    simp only [rendered?, hplaced, Option.bind_some, hnew, Option.map_some]

theorem length_expected {new old : List UInt8} {address : UInt32} {expected : Option Code}
    (h : (BinhackStage.expectedBytes scope expected address new.length).1 = .ok (some old)) :
    old.length = new.length := by
  cases expected with
  | none => cases h
  | some code =>
      simp only [BinhackStage.expectedBytes] at h
      split at h
      · cases h
      · rename_i hsize
        rcases hold : code.render scope address with ⟨e | bytes, said⟩
        · rw [hold] at h
          cases h
        · rw [hold] at h
          cases h
          rw [Code.length_of_render hold]
          exact not_not.mp hsize

theorem matched_of_accepts {m : Memory} (hm : m.Separate) (h : pair.patch? scope = some patch)
    (haccepts : m.Accepts patch.address patch.expected patch.new) :
    pair.Matched scope m.byteAt? patch.address patch.new.length := by
  intro text expected old htext hcompile hsize hrender
  have hexpected : pair.expected? = some expected := by
    simp only [expected?, BinhackStage.compileExpected, htext, Option.mapM_some, hcompile]
    rfl
  have hold : patch.expected = some old := by
    have hpatch := (patch?_eq_some h).2
    rw [hexpected, BinhackStage.expectedBytes, if_neg (not_not.mpr hsize)] at hpatch
    have hsome : (expected.render scope patch.address).1.map some = .ok patch.expected := hpatch
    rw [hrender] at hsome
    exact (Except.ok.inj hsome).symm
  exact ((Memory.holds_iff_byteAt? hm).mp (haccepts.2 old hold)).2

end BinhackPair

namespace BinhackStage

open BinhackPair (laid)

/-! ## One pair -/

section Tried
variable {m : Memory}

theorem tried_eq_true_iff (hm : m.faults = {}) (patch : BinhackPatch) :
    (tried m (some patch)).1 = true ↔ m.Accepts patch.address patch.expected patch.new := by
  rw [← Memory.patch_ok_iff hm, tried]
  cases (m.patch patch.address patch.expected patch.new).result with
  | error e =>
      refine iff_of_false Bool.false_ne_true ?_
      intro h
      cases h
  | ok u => exact iff_of_true rfl rfl

/-- A pair lays its code over what it expects, or leaves everything as it is. -/
theorem tried_quiet (scope : Scope) (hm : m.Quiet) (pair : BinhackPair) :
    let turn := tried m (pair.patch? scope)
    turn.2.Quiet ∧ m.OnlyBytes turn.2 ∧ turn.2.byteAt? = laid scope m.byteAt? (pair, turn.1) ∧
    (turn.1 = true → ∃ address bytes, pair.rendered? scope = some (address, bytes) ∧
      pair.Matched scope m.byteAt? address bytes.length) := by
  cases hpatch : pair.patch? scope with
  | none => exact ⟨hm, .refl m, rfl, fun h => by cases h⟩
  | some patch =>
      obtain ⟨hquiet, honly, hbytes⟩ :=
        Memory.patch_quiet hm patch.address patch.expected patch.new
      have hrendered := (BinhackPair.patch?_eq_some hpatch).1
      refine ⟨hquiet, honly, ?_, ?_⟩
      · show (m.patch patch.address patch.expected patch.new).memory.byteAt? = _
        rw [hbytes, laid, tried, hrendered]
        cases (m.patch patch.address patch.expected patch.new).result with
        | error e => rfl
        | ok u => rfl
      · intro hmade
        exact ⟨_, _, hrendered, BinhackPair.matched_of_accepts hm.separate hpatch
          ((tried_eq_true_iff hm.faults patch).mp hmade)⟩

/-! ## All pairs -/

theorem triedAll_quiet (scope : Scope) (hm : m.Quiet) (pairs : List BinhackPair) :
    let all := triedAll scope m pairs
    let steps := pairs.zip all.1
    all.2.Quiet ∧ m.OnlyBytes all.2 ∧ all.2.byteAt? = steps.foldl (laid scope) m.byteAt? ∧
    ∀ i (pair : BinhackPair), steps[i]? = some (pair, true) → ∃ address bytes,
      pair.rendered? scope = some (address, bytes) ∧
      pair.Matched scope ((steps.take i).foldl (laid scope) m.byteAt?) address bytes.length := by
  induction pairs generalizing m with
  | nil => exact ⟨hm, .refl m, rfl, fun i pair h => nomatch h⟩
  | cons first rest ih =>
      obtain ⟨hquiet, honly, hbytes, hfirst⟩ := tried_quiet scope hm first
      obtain ⟨hquiet', honly', hbytes', hrest⟩ := ih hquiet
      rw [hbytes] at hbytes' hrest
      refine ⟨hquiet', honly.trans honly', hbytes', fun i pair h => ?_⟩
      cases i with
      | zero =>
          obtain ⟨rfl, hmade⟩ := Prod.ext_iff.mp (Option.some.inj h)
          exact hfirst hmade
      | succ i => exact hrest i pair h

end Tried

theorem foldl_laid_outside {scope : Scope} {contents : Contents} {place : Nat}
    {steps : List (BinhackPair × Bool)}
    (h : ∀ pair address bytes, (pair, true) ∈ steps → pair.rendered? scope = some (address, bytes) →
      place < address.toNat ∨ address.toNat + bytes.length ≤ place) :
    steps.foldl (laid scope) contents place = contents place := by
  induction steps generalizing contents with
  | nil => rfl
  | cons step rest ih =>
      rw [List.foldl_cons, ih fun pair address bytes hmem =>
        h pair address bytes (List.mem_cons_of_mem _ hmem)]
      obtain ⟨pair, written⟩ := step
      cases written with
      | false => rfl
      | true =>
          rw [laid, if_pos rfl]
          cases hrendered : pair.rendered? scope with
          | none => rfl
          | some rendered =>
              exact Contents.overlaid_outside
                (h pair rendered.1 rendered.2 List.mem_cons_self hrendered)

/-! ## The stage -/

/-- A stage of binary hacks is a sequence of whole writes: those of the pairs that are
counted as applied, in order.  Every one of them finds the bytes that it expects in what
the ones before left behind; outside of them nothing changes, and no protection does. -/
theorem stage_is_a_fold_of_writes (symbols : Symbols) (options : Options) (b : Bench)
    (hm : b.memory.Quiet) (hacks : List Binhack) :
    let scope := Scope.ofPatch symbols options b.memory
    let verdicts := verdicts symbols options b hacks
    let steps := (Binhack.pairs hacks).zip verdicts
    let after := (run symbols options b hacks).2.memory
    verdicts.length = (Binhack.pairs hacks).length ∧
    (run symbols options b hacks).1.applied = verdicts.count true ∧
    after.byteAt? = steps.foldl (laid scope) b.memory.byteAt? ∧
    (∀ place, (∀ pair address bytes, (pair, true) ∈ steps →
        pair.rendered? scope = some (address, bytes) →
        place < address.toNat ∨ address.toNat + bytes.length ≤ place) →
      after.byteAt? place = b.memory.byteAt? place) ∧
    b.memory.OnlyBytes after ∧
    ∀ i (pair : BinhackPair), steps[i]? = some (pair, true) → ∃ address bytes,
      pair.rendered? scope = some (address, bytes) ∧
      pair.Matched scope ((steps.take i).foldl (laid scope) b.memory.byteAt?) address
        bytes.length := by
  intro scope verdicts steps after
  obtain ⟨hverdicts, hafter, -⟩ := run_eq symbols options b hacks
  obtain ⟨-, honly, hbytes, hmatched⟩ := triedAll_quiet scope hm (Binhack.pairs hacks)
  rw [← hverdicts, ← hafter] at hbytes
  rw [← hafter] at honly
  rw [← hverdicts] at hmatched
  refine ⟨length_verdicts symbols options b hacks, applied_run symbols options b hacks, hbytes,
    fun place h => ?_, honly, hmatched⟩
  rw [hbytes]
  exact foldl_laid_outside h

/-! ### Three entries for one address -/

/-- Replaces two bytes. -/
def sampleHack (code : String) (expected : Option String) : Binhack where
  name := "hack"
  addresses := [.absolute 0x401002]
  code := code
  expected := expected

/-- The second expects what the first writes, and the third what was there at first. -/
def sampleHacks : List Binhack :=
  [sampleHack "90 90" none, sampleHack "CC C3" (some "90 90"), sampleHack "90 90" (some "03 04")]

theorem sample_stage_is_a_fold_of_writes :
    let after := (run {} {} ⟨Memory.sampleMemory {}, []⟩ sampleHacks).2.memory
    (run {} {} ⟨Memory.sampleMemory {}, []⟩ sampleHacks).1.applied = 2 ∧
    after.byteAt? 0x401002 = some 0xCC ∧ after.byteAt? 0x401003 = some 0xC3 ∧
    ∀ place, place < 0x401002 ∨ 0x401004 ≤ place →
      after.byteAt? place = (Memory.sampleMemory {}).byteAt? place := by
  intro after
  obtain ⟨-, happlied, hbytes, houtside, -⟩ :=
    stage_is_a_fold_of_writes {} {} ⟨Memory.sampleMemory {}, []⟩ ⟨by decide, rfl⟩ sampleHacks
  have hverdicts : verdicts {} {} ⟨Memory.sampleMemory {}, []⟩ sampleHacks =
      [true, true, false] := by decide
  rw [hverdicts] at happlied hbytes houtside
  refine ⟨happlied, ?_, ?_, ?_⟩
  · rw [hbytes]
    rfl
  · rw [hbytes]
    rfl
  · intro place hplace
    have hextent : ∀ pair ∈ Binhack.pairs sampleHacks,
        (pair.rendered? (.ofPatch {} {} (Memory.sampleMemory {}))).map
          (fun rendered => (rendered.1, rendered.2.length)) = some (0x401002, 2) := by decide
    refine houtside place fun pair address bytes hmem hrendered => ?_
    have hpair := hextent pair (List.of_mem_zip hmem).1
    rw [hrendered] at hpair
    obtain ⟨rfl, hlength⟩ := Prod.ext_iff.mp (Option.some.inj hpair)
    have hlength' : bytes.length = 2 := hlength
    rw [hlength']
    exact hplace

end BinhackStage
end CodePatch
