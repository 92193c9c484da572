/-
# What is written into caves

A job that is finished is ignored, has failed, or is applied, and then the
memory holds the whole contents of its cave (`Finished`).  No job writes
outside its own range, so what is finished stays so while the others are
written, as long as the ranges are apart (`finishAll_at`).

The code of a cave is rendered in the memory as it is when the cave is written.
What it becomes there is what it becomes in any memory with the same exports,
so the order in which caves are written does not matter.
-/
import CodePatch.Cave.Stage
import CodePatch.Proofs.Code.Render
import CodePatch.Proofs.Expression.Memory

namespace CodePatch

namespace CaveJob

/-- The code of a located cave fits in its slot, and the slot has padding. -/
def Fits (options : Options) (job : CaveJob) : Prop :=
  ∀ code slot address, job.progress = .located code slot address →
    code.elim 0 (Code.size options) ≤ slot.size ∧ slot.size < slot.padded

/-- The address is not in the range of a located cave. -/
def Outside (job : CaveJob) (i : Nat) : Prop :=
  ∀ code slot address, job.progress = .located code slot address →
    i < address.toNat ∨ address.toNat + slot.padded ≤ i

/-- The ranges of two located caves have no address in common. -/
def Apart (job other : CaveJob) : Prop :=
  ∀ i, job.Outside i ∨ other.Outside i

end CaveJob

namespace CaveStage

/-- Why a job fails: its cave has no address, its code is not rendered in the memory
`before`, or its contents are not written into the memory `turn`. -/
inductive Hindered (symbols : Symbols) (options : Options) (before turn : Memory) :
    CaveJob → Prop where
  | rejected {cave : Cave} : Hindered symbols options before turn ⟨cave, .rejected⟩
  | planned {cave : Cave} {code : Option Code} {slot : CaveSlot} :
      Hindered symbols options before turn ⟨cave, .planned code slot⟩
  | code {cave : Cave} {code : Option Code} {slot : CaveSlot} {address : UInt32} {e : PatchError}
      {said : Journal}
      (h : renderCode (Scope.ofPatch symbols options before) code address = (.error e, said)) :
      Hindered symbols options before turn ⟨cave, .located code slot address⟩
  | memory {cave : Cave} {code : Option Code} {slot : CaveSlot} {address : UInt32}
      {rendered : List UInt8} {said : Journal} {e : MemoryError}
      (hcode : renderCode (Scope.ofPatch symbols options before) code address =
        (.ok rendered, said))
      (h : (turn.patch address none (contents cave slot rendered)).result = .error e) :
      Hindered symbols options before turn ⟨cave, .located code slot address⟩

/-- A job is finished: the memory `after` holds the contents of its cave, as its
code is rendered in the memory `before`, or the job asked for nothing, or has failed. -/
inductive Finished (symbols : Symbols) (options : Options) (before turn after : Memory) :
    CaveJob → CaveOutcome → Prop where
  | failed {job : CaveJob} (h : Hindered symbols options before turn job) :
      Finished symbols options before turn after job .failed
  | ignored {job : CaveJob} (h : job.progress = .empty) :
      Finished symbols options before turn after job .ignored
  | applied {job : CaveJob} {code : Option Code} {slot : CaveSlot} {address : UInt32}
      {rendered : List UInt8} {said : Journal} (h : job.progress = .located code slot address)
      (hcode : renderCode (Scope.ofPatch symbols options before) code address =
        (.ok rendered, said))
      (hheld : after.Holds address (contents job.cave slot rendered)) :
      Finished symbols options before turn after job .applied

section Finished
variable {symbols : Symbols} {options : Options} {before turn after : Memory} {job : CaveJob}
  {outcome : CaveOutcome} (h : Finished symbols options before turn after job outcome)
include h

theorem Finished.failed_of_unplaced
    (hjob : job.progress = .rejected ∨ ∃ code slot, job.progress = .planned code slot) :
    outcome = .failed ∧ placedCave? job = none := by
  have hnone : placedCave? job = none := by
    unfold placedCave?
    rcases hjob with hjob | ⟨code, slot, hjob⟩ <;> rw [hjob]
  refine ⟨?_, hnone⟩
  cases h with
  | failed => rfl
  | ignored h => rcases hjob with hjob | ⟨_, _, hjob⟩ <;> rw [hjob] at h <;> cases h
  | applied h => rcases hjob with hjob | ⟨_, _, hjob⟩ <;> rw [hjob] at h <;> cases h

theorem Finished.ignored_of_empty (hjob : job.progress = .empty) : outcome = .ignored := by
  cases h with
  | failed h => cases h <;> cases hjob
  | ignored => rfl
  | applied h =>
      rw [hjob] at h
      cases h

theorem Finished.applied_or_failed {code : Option Code} {slot : CaveSlot} {address : UInt32}
    (hjob : job.progress = .located code slot address) :
    outcome = .applied ∨ outcome = .failed := by
  cases h with
  | failed => exact Or.inr rfl
  | applied => exact Or.inl rfl
  | ignored h =>
      rw [hjob] at h
      cases h

end Finished

theorem length_renderCode {scope : Scope} {code : Option Code} {address : UInt32}
    {rendered : List UInt8} {said : Journal}
    (h : renderCode scope code address = (.ok rendered, said)) :
    rendered.length = code.elim 0 (Code.size scope.options) := by
  cases code with
  | none =>
      cases h
      rfl
  | some code => exact Code.length_of_render h

theorem renderCode_of_alike {scope scope' : Scope} (h : scope.Alike scope') (code : Option Code)
    (address : UInt32) : renderCode scope' code address = renderCode scope code address := by
  cases code with
  | none => rfl
  | some code => exact Code.render_of_alike h code address

theorem length_contents {cave : Cave} {slot : CaveSlot} {code : List UInt8}
    (hcode : code.length ≤ slot.size) (hslot : slot.size ≤ slot.padded) :
    (contents cave slot code).length = slot.padded := by
  simp only [contents, List.length_append, List.length_replicate]
  omega

theorem length_contents_of_fits {options : Options} {job : CaveJob} {code : Option Code}
    {slot : CaveSlot} {address : UInt32} {symbols : Symbols} {m : Memory} {rendered : List UInt8}
    {said : Journal} (hfits : job.Fits options) (h : job.progress = .located code slot address)
    (hcode : renderCode (Scope.ofPatch symbols options m) code address = (.ok rendered, said)) :
    (contents job.cave slot rendered).length = slot.padded := by
  obtain ⟨hsize, hpadded⟩ := hfits code slot address h
  refine length_contents ?_ (Nat.le_of_lt hpadded)
  rw [length_renderCode hcode]
  exact hsize

section Finish
variable {symbols : Symbols} {options : Options}

/-- What is finished stays so, as long as what happens spares the range of the cave. -/
theorem Finished.later {before turn after after' : Memory} {job : CaveJob} {outcome : CaveOutcome}
    (h : Finished symbols options before turn after job outcome) (hfits : job.Fits options)
    {spared : Nat → Prop} (hspares : after.Spares spared after')
    (hrange : ∀ i, ¬ job.Outside i → spared i) :
    Finished symbols options before turn after' job outcome := by
  cases h with
  | failed h => exact .failed h
  | ignored h => exact .ignored h
  | applied h hcode hheld =>
      refine .applied h hcode (hspares.holds (fun i hi => hrange _ fun hout => ?_) hheld)
      rw [length_contents_of_fits hfits h hcode] at hi
      have := hout _ _ _ h
      omega

/-- What code becomes does not depend on what was written in between. -/
theorem Finished.earlier {before before' turn after : Memory} {job : CaveJob}
    {outcome : CaveOutcome} (h : Finished symbols options before turn after job outcome)
    (hsame : before.surroundings = before'.surroundings) :
    Finished symbols options before' turn after job outcome := by
  have hrender : ∀ code address, renderCode (Scope.ofPatch symbols options before) code address =
      renderCode (Scope.ofPatch symbols options before') code address :=
    renderCode_of_alike (Scope.Alike.ofPatch symbols options hsame)
  cases h with
  | failed h =>
      cases h with
      | rejected => exact .failed .rejected
      | planned => exact .failed .planned
      | code h => exact .failed (.code (hrender .. ▸ h))
      | memory hcode h => exact .failed (.memory (hrender .. ▸ hcode) h)
  | ignored h => exact .ignored h
  | applied h hcode hheld => exact .applied h (hrender .. ▸ hcode) hheld

variable (symbols options)

theorem writeCave_cases (b : Bench) (cave : Cave) (code : Option Code) (slot : CaveSlot)
    (address : UInt32) :
    ((∃ e said, renderCode (Scope.ofPatch symbols options b.memory) code address =
        (.error e, said) ∧ (writeCave symbols options b cave code slot address).1 = .failed) ∧
      (writeCave symbols options b cave code slot address).2.memory = b.memory) ∨
    ∃ rendered said,
      renderCode (Scope.ofPatch symbols options b.memory) code address = (.ok rendered, said) ∧
      (writeCave symbols options b cave code slot address).2.memory =
        (b.memory.patch address none (contents cave slot rendered)).memory ∧
      ((∃ e, (writeCave symbols options b cave code slot address).1 = .failed ∧
        (b.memory.patch address none (contents cave slot rendered)).result = .error e) ∨
      (writeCave symbols options b cave code slot address).1 = .applied ∧
        (b.memory.patch address none (contents cave slot rendered)).result = .ok ()) := by
  simp only [writeCave]
  rcases hrender : renderCode (Scope.ofPatch symbols options b.memory) code address with
    ⟨e | rendered, said⟩
  · exact Or.inl ⟨⟨e, said, rfl, rfl⟩, rfl⟩
  · refine Or.inr ⟨rendered, said, rfl, ?_⟩
    simp only [Bench.patch, Bench.memory_say]
    cases (b.memory.patch address none (contents cave slot rendered)).result with
    | error e => exact ⟨rfl, Or.inl ⟨e, rfl, rfl⟩⟩
    | ok u => exact ⟨rfl, Or.inr ⟨rfl, rfl⟩⟩

theorem spares_finish (b : Bench) {job : CaveJob} (hfits : job.Fits options) :
    b.memory.Spares job.Outside (finish symbols options b job).2.memory := by
  obtain ⟨cave, progress⟩ := job
  cases progress with
  | rejected => exact Memory.spares_of_space_eq rfl
  | empty => exact Memory.spares_of_space_eq rfl
  | planned code slot => exact Memory.spares_of_space_eq rfl
  | located code slot address =>
      simp only [finish]
      rcases writeCave_cases symbols options b cave code slot address with
        ⟨-, hm⟩ | ⟨rendered, said, hcode, hm, -⟩
      · rw [hm]
        exact Memory.spares_of_space_eq rfl
      · rw [hm]
        have hpatch := Memory.spares_patch b.memory address none (contents cave slot rendered)
        have hlen := length_contents_of_fits hfits rfl hcode
        dsimp only at hlen
        rw [hlen] at hpatch
        exact hpatch.mono fun i hi => hi code slot address rfl

theorem finished_finish (b : Bench) (job : CaveJob) :
    Finished symbols options b.memory b.memory (finish symbols options b job).2.memory job
      (finish symbols options b job).1 := by
  obtain ⟨cave, progress⟩ := job
  cases progress with
  | rejected => exact .failed .rejected
  | empty => exact .ignored rfl
  | planned code slot => exact .failed .planned
  | located code slot address =>
      simp only [finish]
      rcases writeCave_cases symbols options b cave code slot address with
        ⟨⟨e, said, hcode, hfailed⟩, -⟩ |
        ⟨rendered, said, hcode, hm, ⟨e, hfailed, he⟩ | ⟨happlied, hok⟩⟩
      · rw [hfailed]
        exact .failed (.code hcode)
      · rw [hfailed]
        exact .failed (.memory hcode he)
      · rw [happlied, hm]
        exact .applied rfl hcode (Memory.holds_patch _ _ _ _ hok)

theorem spares_finishAll (b : Bench) {jobs : List CaveJob}
    (hfits : ∀ job ∈ jobs, job.Fits options) :
    b.memory.Spares (fun i => ∀ job ∈ jobs, job.Outside i)
      (finishAll symbols options b jobs).2.memory := by
  induction jobs generalizing b with
  | nil => exact Memory.spares_of_space_eq rfl
  | cons first rest ih =>
      have hfirst := spares_finish symbols options b (hfits first List.mem_cons_self)
      have hrest := ih (finish symbols options b first).2
        fun job h => hfits job (List.mem_cons_of_mem _ h)
      exact (hfirst.mono fun i hi => hi first List.mem_cons_self).trans
        (hrest.mono fun i hi job h => hi job (List.mem_cons_of_mem _ h))

/-- Every job is finished in its turn, and stays so to the end. -/
theorem finishAll_at (b : Bench) {jobs : List CaveJob} (hfits : ∀ job ∈ jobs, job.Fits options)
    (hapart : jobs.Pairwise CaveJob.Apart) :
    (finishAll symbols options b jobs).1.length = jobs.length ∧
    ∀ (i : Nat) (job : CaveJob), jobs[i]? = some job →
      ∃ outcome, (finishAll symbols options b jobs).1[i]? = some outcome ∧
        Finished symbols options b.memory (finishAll symbols options b (jobs.take i)).2.memory
          (finishAll symbols options b jobs).2.memory job outcome := by
  induction jobs generalizing b with
  | nil => exact ⟨rfl, fun i job h => nomatch h⟩
  | cons first rest ih =>
      obtain ⟨hfirst, hrest⟩ := List.pairwise_cons.mp hapart
      have hfits₁ := hfits first List.mem_cons_self
      have hfits' : ∀ job ∈ rest, job.Fits options := fun job h =>
        hfits job (List.mem_cons_of_mem _ h)
      obtain ⟨hlen, hlater⟩ := ih (finish symbols options b first).2 hfits' hrest
      simp only [finishAll]
      refine ⟨congrArg Nat.succ hlen, fun i job h => ?_⟩
      cases i with
      | zero =>
          cases h
          refine ⟨_, rfl, (finished_finish symbols options b first).later hfits₁
            (spares_finishAll symbols options _ hfits') fun i hin job hjob => ?_⟩
          exact (hfirst job hjob i).resolve_left hin
      | succ i =>
          obtain ⟨outcome, houtcome, hfinished⟩ := hlater i job h
          exact ⟨outcome, houtcome, hfinished.earlier
            (spares_finish symbols options b hfits₁).surroundings⟩

end Finish

/-! ## Protection -/

theorem spares_protectAll (b : Bench) (regions : List CaveRegion) :
    b.memory.Spares (fun _ => True) (protectAll b regions).memory := by
  induction regions generalizing b with
  | nil => exact Memory.spares_of_space_eq rfl
  | cons region rest ih =>
      have haccess : region.access.protection ≠ .noAccess := by
        cases region.access <;> exact nofun
      have hprotect : b.memory.Spares (fun _ => True) (protectRegion b region).memory := by
        have h := Memory.spares_protect b.memory region.base haccess
        unfold protectRegion
        rcases hp : b.memory.protect region.base region.access.protection with ⟨_ | p, m⟩
        all_goals
          rw [hp] at h
          exact h
      have hflush : (flushRegion (protectRegion b region) region).memory.space =
          (protectRegion b region).memory.space := by
        unfold flushRegion
        split
        · rcases hf : (protectRegion b region).memory.flush region.base with ⟨_ | u, m⟩
          all_goals
            have h := Memory.space_flush (protectRegion b region).memory region.base
            rw [hf] at h
            exact h
        · rfl
      exact (hprotect.trans (Memory.spares_of_space_eq hflush)).trans (ih _)

end CaveStage
end CodePatch
