/-
# The passes over caves

The stage for caves cut into its passes, with every result by its number: what
is planned for a cave (`planned_at`), what publishing makes of that
(`published_at`), and where a cave lies that is located (`located_at`,
`region_of_located`).  `ledger` lists what the stage itself only counts: the
job of every cave in the end, and its outcome (`ledger_at`).

Ranges of located caves have no address in common (`disjoint_of_located`), so
what is written for one cave is still there when all are written.  Nothing is
assumed of the memory or of the faults planned in it.
-/
import CodePatch.Proofs.Cave.Contents
import CodePatch.Proofs.Cave.Names
import CodePatch.Proofs.Cave.Packing
import CodePatch.Proofs.Cave.Regions

namespace CodePatch.CaveStage

section Passes
variable (symbols : Symbols) (options : Options) (b : Bench) (caves : List Cave)

/-- The layout of the caves. -/
def layoutOf : CaveLayout :=
  CaveLayout.ofRequests ((prepareAll symbols options [] caves).map request)

/-- The jobs as they are planned, before any name is bound. -/
def planned : List CaveJob :=
  List.zipWith plan (prepareAll symbols options [] caves)
    (layoutOf symbols options caves).placements

/-- The bench once it is said what is planned. -/
def opening : Bench :=
  let prepared := prepareAll symbols options [] caves
  b.say (.info "Applying code caves..." :: prepared.flatMap prepareEvents ++
    (List.zipWith planEvents prepared (layoutOf symbols options caves).placements).flatten)

/-- The regions, and the bench once they are allocated. -/
def allocation : List CaveRegion × Bench :=
  allocateAll (opening symbols options b caves) (layoutOf symbols options caves).classSizes

/-- The memory in which the class with the given number asks for its region. -/
def allocationTurn (k : Nat) : Memory :=
  (allocateAll (opening symbols options b caves)
    ((layoutOf symbols options caves).classSizes.take k)).2.memory

/-- The jobs once names are bound, and the symbols then. -/
def publication : List CaveJob × Symbols × Journal :=
  publishAll (allocation symbols options b caves).1 symbols (planned symbols options caves)

/-- The outcomes, and the bench once the caves are written. -/
def completion : List CaveOutcome × Bench :=
  finishAll (publication symbols options b caves).2.1 options
    ((allocation symbols options b caves).2.say (publication symbols options b caves).2.2)
    (publication symbols options b caves).1

/-- The memory in which the cave with the given number is written. -/
def writingTurn (i : Nat) : Memory :=
  (finishAll (publication symbols options b caves).2.1 options
    ((allocation symbols options b caves).2.say (publication symbols options b caves).2.2)
    ((publication symbols options b caves).1.take i)).2.memory

/-- Every cave with its job in the end, and what became of it. -/
def ledger : List (CaveJob × CaveOutcome) :=
  (publication symbols options b caves).1.zip (completion symbols options b caves).1

/-- The result of the passes. -/
def passes : CaveStage where
  report := reportOf (completion symbols options b caves).1
  regions := (allocation symbols options b caves).1
  placed := (publication symbols options b caves).1.filterMap placedCave?
  symbols := (publication symbols options b caves).2.1
  bench := protectAll (completion symbols options b caves).2
    (allocation symbols options b caves).1

/-- The stage is its passes. -/
theorem run_eq (h : caves ≠ []) : run symbols options b caves = passes symbols options b caves := by
  rw [run, if_neg (by rwa [List.isEmpty_iff])]
  rfl

end Passes

/-! ## Planned jobs -/

section Planned
variable {symbols : Symbols} {options : Options}

theorem ok_of_mapError_bind {ε ε' α β : Type} {x : Except ε α} {f : ε → ε'}
    {g : α → Except ε' β} {result : β} (h : x.mapError f >>= g = .ok result) :
    ∃ a, x = .ok a ∧ g a = .ok result := by
  cases x with
  | error e => cases h
  | ok a => exact ⟨a, rfl, h⟩

theorem prepare_ok {earlier : List String} {cave : Cave} {code : Option Code} {size : Option Nat}
    (h : prepare symbols options earlier cave = .ok (code, size)) :
    cave.name ∉ earlier ∧ symbols.get? (Symbols.caveName cave.name) = none ∧
      cave.code.mapM Code.compile = .ok code ∧
      slotSize cave.size cave.count (code.elim 0 (Code.size options)) = .ok size := by
  unfold prepare at h
  split at h
  · cases h
  · rename_i hnew
    split at h
    · cases h
    · rename_i hfree
      refine ⟨by simpa using hnew, by simpa using hfree, ?_⟩
      obtain ⟨compiled, hcode, h⟩ := ok_of_mapError_bind h
      obtain ⟨found, hsize, h⟩ := ok_of_mapError_bind h
      cases h
      exact ⟨hcode, hsize⟩

theorem prepare_error {earlier : List String} {cave : Cave} {e : PatchError}
    (h : prepare symbols options earlier cave = .error e) :
    cave.name ∈ earlier ∨ (symbols.get? (Symbols.caveName cave.name)).isSome ∨
      (∃ cause, cave.code.mapM Code.compile = .error cause) ∨
      ∃ code cause, cave.code.mapM Code.compile = .ok code ∧
        slotSize cave.size cave.count (code.elim 0 (Code.size options)) = .error cause := by
  unfold prepare at h
  split at h
  · rename_i hearlier
    exact Or.inl (by simpa using hearlier)
  · split at h
    · rename_i hbound
      exact Or.inr (Or.inl hbound)
    · cases hcode : cave.code.mapM Code.compile with
      | error cause => exact Or.inr (Or.inr (Or.inl ⟨cause, rfl⟩))
      | ok code =>
          cases hsize : slotSize cave.size cave.count (code.elim 0 (Code.size options)) with
          | error cause => exact Or.inr (Or.inr (Or.inr ⟨code, cause, rfl, hsize⟩))
          | ok size =>
              rw [hcode] at h
              simp only [Except.mapError, bind, Except.bind, hsize] at h
              cases h

theorem le_of_slotSize {requested count code size : Nat}
    (h : slotSize requested count code = .ok (some size)) : code ≤ size := by
  unfold slotSize at h
  split at h
  · cases h
  · split at h
    · cases h
    · cases h
      exact Nat.le_max_right ..

variable (symbols options) in
/-- Each cave is prepared knowing the names of the caves before it. -/
theorem prepareAll_at (earlier : List String) {caves : List Cave} {i : Nat} {cave : Cave}
    (h : caves[i]? = some cave) :
    (prepareAll symbols options earlier caves)[i]? = some (cave, prepare symbols options
      (((caves.take i).map (·.name)).reverse ++ earlier) cave) := by
  induction caves generalizing earlier i with
  | nil => cases h
  | cons first rest ih =>
      cases i with
      | zero =>
          cases h
          rfl
      | succ i =>
          have hrest := ih (first.name :: earlier) h
          simp only [prepareAll, List.getElem?_cons_succ, hrest, List.take_succ_cons, List.map_cons,
            List.reverse_cons, List.append_assoc, List.singleton_append]

variable (symbols options) in
theorem map_cave_prepareAll (earlier : List String) (caves : List Cave) :
    (prepareAll symbols options earlier caves).map Prod.fst = caves := by
  induction caves generalizing earlier with
  | nil => rfl
  | cons first rest ih => simp only [prepareAll, List.map_cons, ih]

theorem cave_plan (prepared : Prepared) (placement : CavePlacement) :
    (plan prepared placement).cave = prepared.1 := by
  obtain ⟨cave, _ | ⟨code, size⟩⟩ := prepared
  · rfl
  · cases placement <;> rfl

theorem placedCave?_plan (prepared : Prepared) (placement : CavePlacement) :
    placedCave? (plan prepared placement) = none := by
  obtain ⟨cave, _ | ⟨code, size⟩⟩ := prepared
  · rfl
  · cases placement <;> rfl

theorem plan_eq_planned {prepared : Prepared} {placement : CavePlacement} {code : Option Code}
    {slot : CaveSlot} (h : (plan prepared placement).progress = .planned code slot) :
    (∃ size, prepared.2 = .ok (code, size)) ∧ placement = .placed slot := by
  obtain ⟨cave, _ | ⟨found, size⟩⟩ := prepared
  · cases h
  · cases placement with
    | empty => cases h
    | tooLarge => cases h
    | placed place =>
        cases h
        exact ⟨⟨size, rfl⟩, rfl⟩

theorem plan_eq_empty {prepared : Prepared} {placement : CavePlacement}
    (h : (plan prepared placement).progress = .empty) :
    (∃ result, prepared.2 = .ok result) ∧ placement = .empty := by
  obtain ⟨cave, _ | result⟩ := prepared
  · cases h
  · cases placement with
    | empty => exact ⟨⟨result, rfl⟩, rfl⟩
    | tooLarge => cases h
    | placed slot => cases h

end Planned

/-! ## Located caves -/

section Located
variable {symbols : Symbols} {options : Options} {b : Bench} {caves : List Cave}

theorem length_planned : (planned symbols options caves).length = caves.length := by
  have hlen := congrArg List.length (map_cave_prepareAll symbols options [] caves)
  rw [List.length_map] at hlen
  rw [planned, layoutOf, CaveLayout.ofRequests, List.length_zipWith,
    CaveLayout.length_placements_behind, List.length_map, hlen, Nat.min_self]

theorem planned_at {i : Nat} {cave : Cave} (h : caves[i]? = some cave) :
    ((prepareAll symbols options [] caves).map request)[i]? = some (request (cave,
      prepare symbols options ((caves.take i).map (·.name)).reverse cave)) ∧
    ∃ placement, (layoutOf symbols options caves).placements[i]? = some placement ∧
      (planned symbols options caves)[i]? = some (plan (cave,
        prepare symbols options ((caves.take i).map (·.name)).reverse cave) placement) := by
  have hat := prepareAll_at symbols options [] h
  rw [List.append_nil] at hat
  refine ⟨by rw [List.getElem?_map, hat, Option.map_some], ?_⟩
  have hlt : i < (planned symbols options caves).length :=
    length_planned ▸ (List.getElem?_eq_some_iff.mp h).1
  obtain ⟨prepared, placement, hprepared, hplacement, hplan⟩ :=
    List.getElem?_zipWith_eq_some.mp (List.getElem?_eq_getElem hlt)
  obtain rfl := Option.some.inj (hat.symm.trans hprepared)
  exact ⟨placement, hplacement, (List.getElem?_eq_getElem hlt).trans (congrArg some hplan.symm)⟩

variable (symbols options caves) in
theorem map_name_planned :
    (planned symbols options caves).map (·.cave.name) = caves.map (·.name) := by
  refine List.ext_getElem? fun i => ?_
  rw [List.getElem?_map, List.getElem?_map]
  cases hcave : caves[i]? with
  | none =>
      rw [List.getElem?_eq_none_iff.mpr (length_planned ▸ List.getElem?_eq_none_iff.mp hcave)]
      rfl
  | some cave =>
      obtain ⟨-, placement, -, hplan⟩ := planned_at hcave
      rw [hplan, Option.map_some, cave_plan, Option.map_some]

variable (symbols options caves) in
theorem placedCave?_planned : ∀ job ∈ planned symbols options caves, placedCave? job = none := by
  intro job hjob
  obtain ⟨i, hi⟩ := List.mem_iff_getElem?.mp hjob
  obtain ⟨prepared, placement, -, -, rfl⟩ := List.getElem?_zipWith_eq_some.mp hi
  exact placedCave?_plan prepared placement

theorem published_at {i : Nat} {job : CaveJob}
    (h : (publication symbols options b caves).1[i]? = some job) :
    ∃ cave placement, caves[i]? = some cave ∧
      (layoutOf symbols options caves).placements[i]? = some placement ∧
      Published (allocation symbols options b caves).1
        (plan (cave, prepare symbols options ((caves.take i).map (·.name)).reverse cave)
          placement) job := by
  obtain ⟨hlen, hat⟩ := publishAll_at (allocation symbols options b caves).1 symbols
    (placedCave?_planned symbols options caves)
  have hlt : i < caves.length :=
    length_planned ▸ hlen ▸ (List.getElem?_eq_some_iff.mp h).1
  obtain ⟨-, placement, hplacement, hplan⟩ := planned_at (List.getElem?_eq_getElem hlt)
  obtain ⟨job', hjob', hpublished⟩ := hat i _ hplan
  obtain rfl := Option.some.inj (h.symm.trans hjob')
  exact ⟨_, placement, List.getElem?_eq_getElem hlt, hplacement, hpublished⟩

theorem located_at {i : Nat} {job : CaveJob} {code : Option Code} {slot : CaveSlot}
    {address : UInt32} (hjob : (publication symbols options b caves).1[i]? = some job)
    (h : job.progress = .located code slot address) :
    caves[i]? = some job.cave ∧
    (layoutOf symbols options caves).placements[i]? = some (.placed slot) ∧
    addressOf? (allocation symbols options b caves).1 slot = some address ∧
    slot.access = job.cave.access ∧ slot.size < slot.padded ∧
    prepare symbols options ((caves.take i).map (·.name)).reverse job.cave =
      .ok (code, some slot.size) := by
  obtain ⟨cave, placement, hcave, hplacement, hpublished⟩ := published_at hjob
  generalize hplan : plan (cave, prepare symbols options
    ((caves.take i).map (·.name)).reverse cave) placement = job₀ at hpublished
  have hcave₀ : job₀.cave = cave := hplan ▸ cave_plan _ placement
  cases hpublished with
  | same hsame =>
      have hnone := placedCave?_plan (cave, prepare symbols options
        ((caves.take i).map (·.name)).reverse cave) placement
      rw [hplan, placedCave?, h] at hnone
      cases hnone
  | rejected => cases h
  | @located found code₀ slot₀ address₀ haddress =>
      cases h
      obtain rfl : found = cave := hcave₀
      obtain ⟨⟨size, hprepare⟩, rfl⟩ := plan_eq_planned (congrArg CaveJob.progress hplan)
      have hrequest : ((prepareAll symbols options [] caves).map request)[i]? =
          some (found.access, size) :=
        (planned_at hcave).1.trans (congrArg (fun r => some (request (found, r))) hprepare)
      obtain ⟨hreq, hpadded⟩ := CaveLayout.placement_at hrequest hplacement
      obtain ⟨haccess, rfl⟩ := Prod.mk.inj hreq
      exact ⟨hcave, hplacement, haddress, haccess.symm, hpadded, hprepare⟩

theorem region_of_located {i : Nat} {job : CaveJob} {code : Option Code} {slot : CaveSlot}
    {address : UInt32} (hjob : (publication symbols options b caves).1[i]? = some job)
    (h : job.progress = .located code slot address) :
    ∃ region, (allocation symbols options b caves).1.find? (·.access = slot.access) = some region ∧
      region ∈ (allocation symbols options b caves).1 ∧ region.access = slot.access ∧
      address.toNat = region.base.toNat + slot.offset ∧
      slot.offset + slot.padded ≤ region.size := by
  obtain ⟨-, hplacement, haddress, -⟩ := located_at hjob h
  obtain ⟨region, hfind, hmem, haccess, rfl⟩ := addressOf?_eq_some haddress
  have hpair : (region.access, region.size) ∈ (layoutOf symbols options caves).classSizes :=
    (sublist_allocateAll _ _).subset (List.mem_map_of_mem hmem)
  obtain ⟨hsize, -⟩ := CaveLayout.mem_classSizes.mp hpair
  have hbetween := (CaveLayout.between_of_mem (List.mem_of_getElem? hplacement)).2
  have hslot : slot.offset + slot.padded ≤ region.size := by
    rw [hsize, haccess]
    exact hbetween
  have hfits := (bounds_allocateAll _ _ region hmem).2
  exact ⟨region, hfind, hmem, haccess, toNat_address hfits hslot, hslot⟩

theorem fits_publication : ∀ job ∈ (publication symbols options b caves).1, job.Fits options := by
  intro job hjob code slot address h
  obtain ⟨i, hi⟩ := List.mem_iff_getElem?.mp hjob
  obtain ⟨-, -, -, -, hpadded, hprepare⟩ := located_at hi h
  exact ⟨le_of_slotSize (prepare_ok hprepare).2.2.2, hpadded⟩

theorem disjoint_of_located {i j : Nat} (hij : i < j) {job job' : CaveJob}
    (hjob : (publication symbols options b caves).1[i]? = some job)
    (hjob' : (publication symbols options b caves).1[j]? = some job') {code code' : Option Code}
    {slot slot' : CaveSlot} {address address' : UInt32}
    (h : job.progress = .located code slot address)
    (h' : job'.progress = .located code' slot' address') :
    address.toNat + slot.padded ≤ address'.toNat ∨
      address'.toNat + slot'.padded ≤ address.toNat := by
  obtain ⟨region, hfind, hmem, haccess, haddr, hslot⟩ := region_of_located hjob h
  obtain ⟨region', hfind', hmem', haccess', haddr', hslot'⟩ := region_of_located hjob' h'
  by_cases hsame : slot.access = slot'.access
  · -- one region: the layout puts the later cave behind the earlier one
    rw [hsame, hfind'] at hfind
    obtain rfl := Option.some.inj hfind
    obtain ⟨hi, hplaced⟩ := List.getElem?_eq_some_iff.mp (located_at hjob h).2.1
    obtain ⟨hj, hplaced'⟩ := List.getElem?_eq_some_iff.mp (located_at hjob' h').2.1
    have horder := List.pairwise_iff_getElem.mp (CaveLayout.pairwise_placements (fun _ => 0)
      ((prepareAll symbols options [] caves).map request)) i j hi hj hij slot slot' hplaced hplaced'
      hsame
    omega
  · -- two regions, one below the other
    have hne : region.access ≠ region'.access := by rwa [haccess, haccess']
    have hbelow := below_or_below (pairwise_allocateAll _ _) hmem hmem' hne
    unfold CaveRegion.Below at hbelow
    omega

theorem apart_of_disjoint {job job' : CaveJob}
    (h : ∀ code slot address code' slot' address', job.progress = .located code slot address →
      job'.progress = .located code' slot' address' →
      address.toNat + slot.padded ≤ address'.toNat ∨
        address'.toNat + slot'.padded ≤ address.toNat) : job.Apart job' := by
  intro i
  by_cases hout : job.Outside i
  · exact Or.inl hout
  · refine Or.inr fun code' slot' address' hjob' => ?_
    refine Decidable.byContradiction fun hin => hout fun code slot address hjob => ?_
    have := h _ _ _ _ _ _ hjob hjob'
    omega

theorem apart_publication : (publication symbols options b caves).1.Pairwise CaveJob.Apart := by
  refine List.pairwise_iff_getElem.mpr fun i j hi hj hij => apart_of_disjoint ?_
  intro code slot address code' slot' address' h h'
  exact disjoint_of_located hij (List.getElem?_eq_getElem hi) (List.getElem?_eq_getElem hj) h h'

end Located

/-! ## Jobs in the end -/

section Ledger
variable (symbols : Symbols) (options : Options) (b : Bench) (caves : List Cave)

theorem ledger_at {i : Nat} {job : CaveJob} {outcome : CaveOutcome}
    (h : (ledger symbols options b caves)[i]? = some (job, outcome)) :
    (publication symbols options b caves).1[i]? = some job ∧
      Finished (publication symbols options b caves).2.1 options
        (allocation symbols options b caves).2.memory (writingTurn symbols options b caves i)
        (completion symbols options b caves).2.memory job outcome := by
  obtain ⟨hjob, houtcome⟩ := List.getElem?_zip_eq_some.mp h
  obtain ⟨outcome', hat, hfinished⟩ := (finishAll_at (publication symbols options b caves).2.1
    options _ fits_publication apart_publication).2 i job hjob
  obtain rfl := Option.some.inj (houtcome.symm.trans hat)
  exact ⟨hjob, hfinished⟩

theorem map_cave_publication :
    (publication symbols options b caves).1.map (·.cave) = caves := by
  obtain ⟨hlen, -⟩ := publishAll_at (allocation symbols options b caves).1 symbols
    (placedCave?_planned symbols options caves)
  refine List.ext_getElem (by rw [List.length_map, ← length_planned]; exact hlen) fun i h h' => ?_
  have hi : i < (publication symbols options b caves).1.length := List.length_map _ ▸ h
  obtain ⟨cave, placement, hcave, -, hpublished⟩ := published_at (List.getElem?_eq_getElem hi)
  rw [List.getElem_map, hpublished.cave, cave_plan]
  exact (List.getElem_eq_iff h').mpr hcave |>.symm

theorem length_completion :
    (completion symbols options b caves).1.length =
      (publication symbols options b caves).1.length :=
  (finishAll_at _ options _ fits_publication apart_publication).1

theorem map_fst_ledger :
    (ledger symbols options b caves).map Prod.fst = (publication symbols options b caves).1 :=
  List.map_fst_zip (Nat.le_of_eq (length_completion symbols options b caves).symm)

theorem map_snd_ledger :
    (ledger symbols options b caves).map Prod.snd = (completion symbols options b caves).1 :=
  List.map_snd_zip (Nat.le_of_eq (length_completion symbols options b caves))

theorem map_cave_ledger : (ledger symbols options b caves).map (·.1.cave) = caves := by
  have hcaves := map_cave_publication symbols options b caves
  rw [← map_fst_ledger, List.map_map] at hcaves
  exact hcaves

theorem placed_eq_filterMap_ledger :
    (passes symbols options b caves).placed =
      (ledger symbols options b caves).filterMap (placedCave? ·.1) := by
  rw [passes, ← map_fst_ledger, List.filterMap_map]
  rfl

theorem surroundings_final :
    (protectAll (completion symbols options b caves).2
      (allocation symbols options b caves).1).memory.surroundings =
    (allocation symbols options b caves).2.memory.surroundings :=
  (spares_protectAll _ _).surroundings.trans
    (spares_finishAll _ options _ fits_publication).surroundings

theorem disjoint_placed :
    ((publication symbols options b caves).1.filterMap placedCave?).Pairwise fun p q =>
      p.address.toNat + p.padded ≤ q.address.toNat ∨
        q.address.toNat + q.padded ≤ p.address.toNat := by
  refine List.pairwise_filterMap.mpr (List.pairwise_iff_getElem.mpr fun i j hi hj hij => ?_)
  intro p hp q hq
  obtain ⟨code, slot, address, hjob, rfl⟩ := placedCave?_eq_some hp
  obtain ⟨code', slot', address', hjob', rfl⟩ := placedCave?_eq_some hq
  exact disjoint_of_located hij (List.getElem?_eq_getElem hi) (List.getElem?_eq_getElem hj)
    hjob hjob'

end Ledger

end CodePatch.CaveStage
