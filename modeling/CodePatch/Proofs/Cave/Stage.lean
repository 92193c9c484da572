/-
# Caves, from entries to memory

What the passes make of every cave.  A cave that cannot be named, compiled,
laid out or given a region fails, and is not placed (`Refused`).  Any other
cave is ignored if it has no bytes; else it has its place, and its name in the
final symbols (`Settled`), and holds its code as it reads against them, unless
the code is not rendered or the memory does not take it (`Filled`).

`caves_are_published_and_filled` says so of the whole stage, and that nothing
else is bound.  Nothing is assumed of the memory or of the faults planned in
it.
-/
import CodePatch.Proofs.Cave.Passes

namespace CodePatch.CaveStage

/-- A cave that has an address lies in a region of its class, and the memory in
the end holds what it was to become, unless it failed.  `turn` is the memory
in which it is written. -/
structure Filled (options : Options) (stage : CaveStage) (turn : Memory) (job : CaveJob)
    (outcome : CaveOutcome) (code : Option Code) (slot : CaveSlot) (address : UInt32) : Prop where
  region : ∃ region ∈ stage.regions, region.access = job.cave.access ∧
    region.base.toNat ≤ address.toNat ∧
    address.toNat + slot.padded ≤ region.base.toNat + region.size
  compiled : job.cave.code.mapM Code.compile = .ok code
  sized : slotSize job.cave.size job.cave.count (code.elim 0 (Code.size options)) =
    .ok (some slot.size)
  padded : slot.size < slot.padded
  /-- The code as it reads against the final symbols, then the fill byte, then traps. -/
  contents : outcome ≠ .failed → ∃ bytes said,
    renderCode (Scope.ofPatch stage.symbols options stage.bench.memory) code address =
      (.ok bytes, said) ∧
    bytes.length ≤ slot.size ∧
    stage.bench.memory.Holds address (bytes ++
      List.replicate (slot.size - bytes.length) job.cave.fill ++
      List.replicate (slot.padded - slot.size) 0xCC)
  /-- It fails for its code, or for the memory in its turn. -/
  hindered : outcome = .failed → Hindered stage.symbols options stage.bench.memory turn job

/-- Why the cave with the given number cannot be placed. -/
inductive Refused (symbols : Symbols) (options : Options) (b : Bench) (caves : List Cave) (i : Nat)
    (cave : Cave) : Prop where
  /-- An earlier cave has the same name. -/
  | repeated (h : cave.name ∈ (caves.take i).map (·.name))
  /-- The name is bound already. -/
  | bound (h : (symbols.get? (Symbols.caveName cave.name)).isSome)
  /-- The code does not compile. -/
  | code (e : CodeError) (h : cave.code.mapM Code.compile = .error e)
  /-- The size does not fit in the address space. -/
  | size (code : Option Code) (e : ConfigError) (hcode : cave.code.mapM Code.compile = .ok code)
      (h : slotSize cave.size cave.count (code.elim 0 (Code.size options)) = .error e)
  /-- The region of the class would become too large. -/
  | layout (h : (layoutOf symbols options caves).placements[i]? = some .tooLarge)
  /-- The class is not given its region. -/
  | region (slot : CaveSlot) (k size : Nat) (e : MemoryError)
      (h : (layoutOf symbols options caves).placements[i]? = some (.placed slot))
      (hclass : (layoutOf symbols options caves).classSizes[k]? = some (cave.access, size))
      (hfailed : ((allocationTurn symbols options b caves k).allocate size .readWrite).1 =
        .error e)

/-- What becomes of a cave that is not refused. -/
inductive Settled (options : Options) (stage : CaveStage) (cave : Cave) (job : CaveJob) :
    CaveOutcome → Prop where
  /-- It has no bytes, and nothing is done for it. -/
  | ignored {code : Option Code} (hcode : cave.code.mapM Code.compile = .ok code)
      (hsize : slotSize cave.size cave.count (code.elim 0 (Code.size options)) = .ok none)
      (hjob : job.progress = .empty) : Settled options stage cave job .ignored
  /-- It has its place and its name, and is written or fails (`Filled`). -/
  | located {code : Option Code} {slot : CaveSlot} {address : UInt32} {outcome : CaveOutcome}
      (hjob : job.progress = .located code slot address)
      (hplaced : ⟨cave.name, address, slot.size, slot.padded⟩ ∈ stage.placed)
      (hname : stage.symbols.get? (Symbols.caveName cave.name) = some address)
      (h : outcome = .applied ∨ outcome = .failed) : Settled options stage cave job outcome

/-! ## Caves that are refused -/

section Refused
variable {symbols : Symbols} {options : Options} {b : Bench} {caves : List Cave} {i : Nat}
  {cave : Cave} {job : CaveJob}

/-- A refused cave is not prepared, does not fit, or has no region. -/
theorem Refused.cases (h : Refused symbols options b caves i cave) :
    (∃ e, prepare symbols options ((caves.take i).map (·.name)).reverse cave = .error e) ∨
      (layoutOf symbols options caves).placements[i]? = some .tooLarge ∨
      ∃ slot, (layoutOf symbols options caves).placements[i]? = some (.placed slot) ∧
        ∀ region ∈ (allocation symbols options b caves).1, region.access ≠ cave.access := by
  rcases hprepare : prepare symbols options ((caves.take i).map (·.name)).reverse cave with
    e | ⟨compiled, size⟩
  · exact Or.inl ⟨e, hprepare⟩
  refine Or.inr ?_
  obtain ⟨hname, hfree, hcode, hsize⟩ := prepare_ok hprepare
  cases h with
  | repeated h => exact absurd (List.mem_reverse.mpr h) hname
  | bound h =>
      rw [hfree] at h
      cases h
  | code e h =>
      rw [hcode] at h
      cases h
  | size code e hcode' h =>
      obtain rfl : compiled = code := Except.ok.inj (hcode.symm.trans hcode')
      rw [hsize] at h
      cases h
  | layout h => exact Or.inl h
  | region slot k size e h hclass hfailed =>
      rcases region_or_failed (opening symbols options b caves) _
        (CaveLayout.pairwise_classSizes _) hclass with ⟨base, hok, -⟩ | ⟨-, hnone⟩
      · cases hok.symm.trans hfailed
      · exact Or.inr ⟨slot, h, hnone⟩

/-- A refused cave is given up, or stays without a region. -/
theorem unplaced_of_refused (hcave : caves[i]? = some cave)
    (hjob : (publication symbols options b caves).1[i]? = some job)
    (h : Refused symbols options b caves i cave) :
    job.progress = .rejected ∨ ∃ code slot, job.progress = .planned code slot := by
  rcases hprogress : job.progress with _ | _ | ⟨code, slot⟩ | ⟨code, slot, address⟩
  case rejected => exact Or.inl rfl
  case planned => exact Or.inr ⟨code, slot, rfl⟩
  case located =>
    -- a located cave was prepared and laid out, and its class has a region
    obtain ⟨hcave', hplaced, haddress, haccess, -, hok⟩ := located_at hjob hprogress
    obtain ⟨region, -, hmem, hregion, -⟩ := addressOf?_eq_some haddress
    obtain rfl : cave = job.cave := Option.some.inj (hcave.symm.trans hcave')
    rcases h.cases with ⟨e, he⟩ | hlarge | ⟨slot', -, hnone⟩
    · rw [hok] at he
      cases he
    · rw [hplaced] at hlarge
      cases hlarge
    · exact absurd (hregion.trans haccess) (hnone region hmem)
  case empty =>
    -- only a cave without bytes is published as such, and that is no reason to refuse it
    obtain ⟨cave', placement, hcave', hplacement, hpublished⟩ := published_at hjob
    obtain rfl := Option.some.inj (hcave.symm.trans hcave')
    have hempty : (plan (cave, prepare symbols options ((caves.take i).map (·.name)).reverse cave)
        placement).progress = .empty := by
      generalize plan (cave, prepare symbols options ((caves.take i).map (·.name)).reverse cave)
        placement = planned at hpublished
      cases hpublished with
      | same => exact hprogress
      | located => cases hprogress
      | rejected => cases hprogress
    obtain ⟨⟨result, hok⟩, rfl⟩ := plan_eq_empty hempty
    rcases h.cases with ⟨e, he⟩ | hlarge | ⟨slot', hplaced, -⟩
    · cases hok.symm.trans he
    · rw [hplacement] at hlarge
      cases hlarge
    · rw [hplacement] at hplaced
      cases hplaced

/-! ## Caves that are not refused -/

theorem prepare_of_not_refused (h : ¬ Refused symbols options b caves i cave) :
    ∃ code size, prepare symbols options ((caves.take i).map (·.name)).reverse cave =
      .ok (code, size) := by
  cases hprepare : prepare symbols options ((caves.take i).map (·.name)).reverse cave with
  | ok result => exact ⟨result.1, result.2, rfl⟩
  | error e =>
      rcases prepare_error hprepare with hname | hbound | ⟨e, hcode⟩ | ⟨code, e, hcode, hsize⟩
      · exact absurd (.repeated (List.mem_reverse.mp hname)) h
      · exact absurd (.bound hbound) h
      · exact absurd (.code e hcode) h
      · exact absurd (.size code e hcode hsize) h

theorem addressOf?_of_not_refused (h : ¬ Refused symbols options b caves i cave) {slot : CaveSlot}
    (hplaced : (layoutOf symbols options caves).placements[i]? = some (.placed slot))
    (haccess : slot.access = cave.access) (hpadded : slot.size < slot.padded) :
    ∃ address, addressOf? (allocation symbols options b caves).1 slot = some address := by
  cases haddress : addressOf? (allocation symbols options b caves).1 slot with
  | some address => exact ⟨address, rfl⟩
  | none =>
      -- the slot is not empty, so its class asks for a region
      have hbetween := (CaveLayout.between_of_mem (List.mem_of_getElem? hplaced)).2
      have hused : (layoutOf symbols options caves).used slot.access ≠ 0 :=
        Nat.ne_of_gt (Nat.lt_of_lt_of_le (by omega) hbetween)
      obtain ⟨k, hk⟩ := List.mem_iff_getElem?.mp (CaveLayout.mem_classSizes.mpr ⟨rfl, hused⟩)
      rw [haccess] at hk
      rcases region_or_failed (opening symbols options b caves) _
        (CaveLayout.pairwise_classSizes _) hk with ⟨base, -, hmem⟩ | ⟨⟨e, hfailed⟩, -⟩
      · exact absurd haccess.symm (addressOf?_eq_none_iff.mp haddress _ hmem)
      · exact absurd (.region slot k _ e hplaced hk hfailed) h

/-- A cave that is not refused is located, unless it needs no memory. -/
theorem progress_of_not_refused (hcave : caves[i]? = some cave)
    (hjob : (publication symbols options b caves).1[i]? = some job)
    (h : ¬ Refused symbols options b caves i cave) :
    (job.progress = .empty ∧ ∃ code, cave.code.mapM Code.compile = .ok code ∧
      slotSize cave.size cave.count (code.elim 0 (Code.size options)) = .ok none) ∨
    ∃ code slot address, job.progress = .located code slot address := by
  obtain ⟨code, size, hprepare⟩ := prepare_of_not_refused h
  obtain ⟨hnew, hfree, hcode, hsize⟩ := prepare_ok hprepare
  obtain ⟨hrequest, placement, hplacement, hplan⟩ := planned_at hcave
  rw [hprepare] at hrequest hplan
  have hempty := CaveLayout.empty_iff _ hrequest
  cases placement with
  | tooLarge => exact absurd (.layout hplacement) h
  | empty =>
      obtain rfl : size = none := hempty.mp hplacement
      obtain ⟨-, hat⟩ := publishAll_at (allocation symbols options b caves).1 symbols
        (placedCave?_planned symbols options caves)
      obtain ⟨job', hjob', hpublished⟩ := hat i _ hplan
      obtain rfl := Option.some.inj (hjob.symm.trans hjob')
      refine Or.inl ⟨?_, code, hcode, hsize⟩
      cases hpublished
      rfl
  | placed slot =>
      obtain ⟨hreq, hpadded⟩ := CaveLayout.placement_at hrequest hplacement
      obtain ⟨haccess, rfl⟩ := Prod.mk.inj hreq
      obtain ⟨address, haddress⟩ := addressOf?_of_not_refused h hplacement haccess.symm hpadded
      have hfirst : cave.name ∉ ((planned symbols options caves).take i).map (·.cave.name) := by
        rw [List.map_take, map_name_planned, ← List.map_take]
        exact fun hmem => hnew (List.mem_reverse.mpr hmem)
      rw [Symbols.get?_caveName] at hfree
      have hlocated := located_of_free _ symbols (placedCave?_planned symbols options caves) hplan
        haddress hfree hfirst
      obtain rfl := Option.some.inj (hjob.symm.trans hlocated)
      exact Or.inr ⟨code, slot, address, rfl⟩

end Refused

/-! ## The stage -/

section Stage
variable (symbols : Symbols) (options : Options) (b : Bench) (caves : List Cave)

theorem filled_at {i : Nat} {job : CaveJob} {outcome : CaveOutcome} {code : Option Code}
    {slot : CaveSlot} {address : UInt32}
    (hentry : (ledger symbols options b caves)[i]? = some (job, outcome))
    (h : job.progress = .located code slot address) :
    Filled options (passes symbols options b caves) (writingTurn symbols options b caves i) job
      outcome code slot address := by
  obtain ⟨hjob, hfinished⟩ := ledger_at symbols options b caves hentry
  obtain ⟨-, -, -, haccess, hpadded, hprepare⟩ := located_at hjob h
  obtain ⟨region, -, hmem, hregion, haddress, hslot⟩ := region_of_located hjob h
  obtain ⟨-, -, hcode, hsize⟩ := prepare_ok hprepare
  have hfits := fits_publication job (List.mem_of_getElem? hjob)
  have hlast := (hfinished.later hfits (spares_protectAll _
    (allocation symbols options b caves).1) (fun _ _ => trivial)).earlier
    (surroundings_final symbols options b caves).symm
  refine ⟨⟨region, hmem, hregion.trans haccess, by omega, by omega⟩, hcode, hsize, hpadded,
    fun hnot => ?_, fun hfailed => ?_⟩
  · cases hlast with
    | failed => exact absurd rfl hnot
    | ignored hempty =>
        rw [h] at hempty
        cases hempty
    | applied hlocated hrender hheld =>
        rw [h] at hlocated
        cases hlocated
        refine ⟨_, _, hrender, ?_, hheld⟩
        rw [length_renderCode hrender]
        exact (hfits code slot address h).1
  · subst hfailed
    cases hlast with
    | failed hhindered => exact hhindered

theorem get?_of_placed {p : PlacedCave} (h : p ∈ (passes symbols options b caves).placed) :
    (passes symbols options b caves).symbols.get? (Symbols.caveName p.name) = some p.address := by
  rw [Symbols.get?_caveName]
  exact bound?_of_located (allocation symbols options b caves).1 symbols
    (placedCave?_planned symbols options caves) h

theorem failed_of_refused {i : Nat} {cave : Cave} {job : CaveJob} {outcome : CaveOutcome}
    (hcave : caves[i]? = some cave)
    (hentry : (ledger symbols options b caves)[i]? = some (job, outcome))
    (h : Refused symbols options b caves i cave) :
    outcome = .failed ∧ placedCave? job = none := by
  obtain ⟨hjob, hfinished⟩ := ledger_at symbols options b caves hentry
  exact hfinished.failed_of_unplaced (unplaced_of_refused hcave hjob h)

/-- A cave that is not refused is ignored, or has its place and its name. -/
theorem settled_at {i : Nat} {cave : Cave} {job : CaveJob} {outcome : CaveOutcome}
    (hcave : caves[i]? = some cave)
    (hentry : (ledger symbols options b caves)[i]? = some (job, outcome))
    (h : ¬ Refused symbols options b caves i cave) :
    Settled options (passes symbols options b caves) cave job outcome := by
  obtain ⟨hjob, hfinished⟩ := ledger_at symbols options b caves hentry
  rcases progress_of_not_refused hcave hjob h with
    ⟨hempty, code, hcode, hsize⟩ | ⟨code, slot, address, hlocated⟩
  · obtain rfl := hfinished.ignored_of_empty hempty
    exact .ignored hcode hsize hempty
  · obtain rfl : cave = job.cave := Option.some.inj (hcave.symm.trans (located_at hjob hlocated).1)
    have hplaced : ⟨job.cave.name, address, slot.size, slot.padded⟩ ∈
        (passes symbols options b caves).placed :=
      List.mem_filterMap.mpr ⟨job, List.mem_of_getElem? hjob, by rw [placedCave?, hlocated]⟩
    have hname := get?_of_placed symbols options b caves hplaced
    exact .located hlocated hplaced hname (hfinished.applied_or_failed hlocated)

end Stage

/-- What the stage does to caves, whatever accesses fail. -/
theorem caves_are_published_and_filled (symbols : Symbols) (options : Options) (b : Bench)
    (caves : List Cave) :
    let stage := run symbols options b caves
    let entries := ledger symbols options b caves
    (entries.map (·.1.cave) = caves ∧ stage.report = reportOf (entries.map (·.2)) ∧
      stage.placed = entries.filterMap (placedCave? ·.1)) ∧
    (∀ p ∈ stage.placed, stage.symbols.get? (Symbols.caveName p.name) = some p.address) ∧
    (stage.placed.Pairwise fun p q => p.address.toNat + p.padded ≤ q.address.toNat ∨
      q.address.toNat + q.padded ≤ p.address.toNat) ∧
    (stage.regions.Pairwise fun region other => region.access ≠ other.access) ∧
    (∀ (i : Nat) job outcome, entries[i]? = some (job, outcome) →
      ∀ code slot address, job.progress = .located code slot address →
        Filled options stage (writingTurn symbols options b caves i) job outcome code slot
          address) ∧
    (∀ name address, symbols.bound? name = some address →
      stage.symbols.bound? name = some address) ∧
    (∀ name, symbols.bound? name = none ∧ (stage.symbols.bound? name).isSome ↔
      ∃ p ∈ stage.placed, name = Symbols.caveName p.name) ∧
    (∀ (i : Nat) cave job outcome, caves[i]? = some cave → entries[i]? = some (job, outcome) →
      (Refused symbols options b caves i cave → outcome = .failed ∧ placedCave? job = none) ∧
      (¬ Refused symbols options b caves i cave → Settled options stage cave job outcome)) := by
  intro stage entries
  by_cases hne : caves = []
  · subst hne
    refine ⟨⟨rfl, rfl, rfl⟩, fun p h => absurd h List.not_mem_nil, List.Pairwise.nil,
      List.Pairwise.nil, (fun i job outcome h => nomatch h), fun _ _ h => h,
      fun name => ⟨?_, ?_⟩, ?_⟩
    · rintro ⟨hnone, hsome⟩
      rw [show stage.symbols = symbols from rfl, hnone] at hsome
      cases hsome
    · rintro ⟨p, hp, -⟩
      exact absurd hp List.not_mem_nil
    · intro i cave job outcome hcave
      cases hcave
  have hrun : stage = passes symbols options b caves := run_eq symbols options b caves hne
  rw [hrun]
  have hplanned := placedCave?_planned symbols options caves
  refine ⟨⟨map_cave_ledger symbols options b caves, ?_,
    placed_eq_filterMap_ledger symbols options b caves⟩, ?_, ?_, ?_, ?_, ?_, ?_, ?_⟩
  · exact congrArg reportOf (map_snd_ledger symbols options b caves).symm
  · exact fun p hp => get?_of_placed symbols options b caves hp
  · exact disjoint_placed symbols options b caves
  · exact pairwise_access_allocateAll _ _ (CaveLayout.pairwise_classSizes _)
  · intro i job outcome hentry code slot address hjob
    exact filled_at symbols options b caves hentry hjob
  · intro name address h
    exact Symbols.bound?_of_append (bindings_publishAll _ symbols hplanned) h
  · intro name
    exact newly_bound_iff _ symbols hplanned
  · intro i cave job outcome hcave hentry
    exact ⟨failed_of_refused symbols options b caves hcave hentry,
      settled_at symbols options b caves hcave hentry⟩

/-! ### Caves that refer to each other

Each of the first two holds the address of the other one.  The third has the
name of the first, and the last has no bytes. -/

def mutualCaves : List Cave :=
  [{ name := "ping", access := .rw, size := 6, fill := 0xEE, code := some "<cave:pong>" },
    { name := "pong", access := .rw, code := some "<cave:ping>" },
    { name := "ping", access := .rx, code := some "90" },
    { name := "void", access := .rw }]

/-- The jobs of the caves, and what becomes of them. -/
def mutualEntries : List (CaveJob × CaveOutcome) :=
  (mutualCaves.zipWith CaveJob.mk
    [.located (some ⟨[.pointer "cave:pong" 0 false]⟩) ⟨.rw, 0, 6, 16⟩ 0x10000000,
      .located (some ⟨[.pointer "cave:ping" 0 false]⟩) ⟨.rw, 16, 4, 16⟩ 0x10000010,
      .rejected, .empty]).zip [.applied, .applied, .failed, .ignored]

theorem mutual_caves_are_filled :
    let stage := run ⟨[]⟩ {} ⟨{}, []⟩ mutualCaves
    stage.placed = [⟨"ping", 0x10000000, 6, 16⟩, ⟨"pong", 0x10000010, 4, 16⟩] ∧
    stage.symbols.get? (Symbols.caveName "ping") = some 0x10000000 ∧
    stage.symbols.get? (Symbols.caveName "pong") = some 0x10000010 ∧
    stage.bench.memory.Holds 0x10000000
      ([0x10, 0x00, 0x00, 0x10, 0xEE, 0xEE] ++ List.replicate 10 0xCC) ∧
    stage.bench.memory.Holds 0x10000010
      ([0x00, 0x00, 0x00, 0x10] ++ List.replicate 12 0xCC) ∧
    stage.report = ⟨3, 2, 1, 1⟩ := by
  intro stage
  obtain ⟨⟨-, hreport, hplaced⟩, hnames, -, -, hfilled, -, -, -⟩ :=
    caves_are_published_and_filled ⟨[]⟩ {} ⟨{}, []⟩ mutualCaves
  have hentries : ledger ⟨[]⟩ {} ⟨{}, []⟩ mutualCaves = mutualEntries := by rfl
  rw [hentries] at hreport hplaced hfilled
  have hping := hnames ⟨"ping", 0x10000000, 6, 16⟩ (hplaced ▸ List.mem_cons_self)
  have hpong := hnames ⟨"pong", 0x10000010, 4, 16⟩
    (hplaced ▸ List.mem_cons_of_mem _ List.mem_cons_self)
  have hpingCode : renderCode (Scope.ofPatch stage.symbols {} stage.bench.memory)
      (some ⟨[.pointer "cave:pong" 0 false]⟩) 0x10000000 = (.ok [0x10, 0x00, 0x00, 0x10], []) := rfl
  have hpongCode : renderCode (Scope.ofPatch stage.symbols {} stage.bench.memory)
      (some ⟨[.pointer "cave:ping" 0 false]⟩) 0x10000010 = (.ok [0x00, 0x00, 0x00, 0x10], []) := rfl
  refine ⟨hplaced, hping, hpong, ?_, ?_, hreport⟩
  · obtain ⟨bytes, said, hcode, -, hheld⟩ :=
      (hfilled 0 _ .applied rfl _ _ _ rfl).contents nofun
    cases hpingCode.symm.trans hcode
    exact hheld
  · obtain ⟨bytes, said, hcode, -, hheld⟩ :=
      (hfilled 1 _ .applied rfl _ _ _ rfl).contents nofun
    cases hpongCode.symm.trans hcode
    exact hheld

end CodePatch.CaveStage
