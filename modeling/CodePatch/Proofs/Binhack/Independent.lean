/-
# Binary hacks that do not get in each other's way

The order of entries matters only where their code goes to the same places.  If
no two pairs have a place in common and no access fails by plan, a stage does
the same to memory, and reports the same, for every order (`order_of_apart_entries`).

The verdict on a pair is then the one that it would get if it were alone
(`triedAll_of_apart`): the patch that it asks for is read in the scope, which
no pair changes, and what decides whether the patch is made are the regions and
the bytes at its own places, which no other pair changes.
-/
import CodePatch.Proofs.Binhack.Writes

namespace CodePatch

namespace BinhackPair

/-- Where the code of a pair goes, and its size; `none` if there is no code or no place. -/
def extent? (scope : Scope) (pair : BinhackPair) : Option (UInt32 × Nat) :=
  (pair.placed? scope).map fun (address, code) => (address, code.size scope.options)

/-- The code of the two pairs goes to no place in common. -/
def Apart (scope : Scope) (pair other : BinhackPair) : Prop :=
  ∀ address size address' size', pair.extent? scope = some (address, size) →
    other.extent? scope = some (address', size') →
    ∀ place, address.toNat ≤ place → place < address.toNat + size →
      place < address'.toNat ∨ address'.toNat + size' ≤ place

variable {scope : Scope} {pair other : BinhackPair}

theorem Apart.symm (h : pair.Apart scope other) : other.Apart scope pair := by
  intro address size address' size' hother hpair place hlow hhigh
  have hplace := h address' size' address size hpair hother place
  omega

theorem extent?_of_rendered? {address : UInt32} {bytes : List UInt8}
    (h : pair.rendered? scope = some (address, bytes)) :
    pair.extent? scope = some (address, bytes.length) := by
  obtain ⟨⟨place, code⟩, hplaced, hbytes⟩ := Option.bind_eq_some_iff.mp h
  obtain ⟨new, hnew, heq⟩ := Option.map_eq_some_iff.mp hbytes
  cases heq
  have hlength : bytes.length = code.size scope.options :=
    Code.length_of_render (Prod.ext (ok_of_toOption hnew) rfl)
  rw [extent?, hplaced, hlength]
  rfl

end BinhackPair

namespace BinhackStage

open BinhackPair (laid)

section Apart
variable (scope : Scope)

/-- Is the patch of the pair made in this memory? -/
def takes (m : Memory) (pair : BinhackPair) : Bool :=
  (tried m (pair.patch? scope)).1

variable {scope}

theorem takes_congr {m m' : Memory} (hm : m.Quiet) (hm' : m'.Quiet) {pair : BinhackPair}
    (hregions : m'.regions = m.regions)
    (hbytes : ∀ address size, pair.extent? scope = some (address, size) →
      ∀ place, address.toNat ≤ place → place < address.toNat + size →
      m'.byteAt? place = m.byteAt? place) : takes scope m' pair = takes scope m pair := by
  unfold takes
  cases hpatch : pair.patch? scope with
  | none => rfl
  | some patch =>
      obtain ⟨hrendered, hexpected⟩ := BinhackPair.patch?_eq_some hpatch
      have hextent := BinhackPair.extent?_of_rendered? hrendered
      rw [Bool.eq_iff_iff, tried_eq_true_iff hm.faults, tried_eq_true_iff hm'.faults]
      refine Memory.accepts_congr hm.separate hm'.separate hregions fun old hold i hi => ?_
      rw [hold] at hexpected
      have hlength := BinhackPair.length_expected hexpected
      exact hbytes _ _ hextent _ (by omega) (by omega)

theorem byteAt?_tried {m : Memory} (hm : m.Quiet) {pair other : BinhackPair}
    (h : pair.Apart scope other) {address : UInt32} {size : Nat}
    (hextent : other.extent? scope = some (address, size)) {place : Nat}
    (hlow : address.toNat ≤ place) (hhigh : place < address.toNat + size) :
    (tried m (pair.patch? scope)).2.byteAt? place = m.byteAt? place := by
  obtain ⟨-, -, hbytes, -⟩ := tried_quiet scope hm pair
  rw [hbytes]
  show [(pair, (tried m (pair.patch? scope)).1)].foldl (laid scope) m.byteAt? place = _
  refine foldl_laid_outside fun written start bytes hmem hrendered => ?_
  obtain rfl : written = pair := (Prod.ext_iff.mp (List.mem_singleton.mp hmem)).1
  have hplace := h start bytes.length address size (BinhackPair.extent?_of_rendered? hrendered)
    hextent place
  omega

/-- The verdict on a pair is the one that it would get if it were alone. -/
theorem triedAll_of_apart {m : Memory} (hm : m.Quiet) {pairs : List BinhackPair}
    (h : pairs.Pairwise (BinhackPair.Apart scope)) :
    (triedAll scope m pairs).1 = pairs.map (takes scope m) := by
  induction pairs generalizing m with
  | nil => rfl
  | cons first rest ih =>
      obtain ⟨hfirst, hrest⟩ := List.pairwise_cons.mp h
      obtain ⟨hquiet, honly, -⟩ := tried_quiet scope hm first
      show _ :: _ = _ :: _
      rw [ih hquiet hrest]
      refine congrArg (takes scope m first :: ·) (List.map_congr_left fun pair hpair => ?_)
      refine takes_congr hm hquiet honly.regions fun address size hextent place hlow hhigh => ?_
      exact byteAt?_tried hm (hfirst pair hpair) hextent hlow hhigh

theorem foldl_laid_inside {contents : Contents} {steps : List (BinhackPair × Bool)}
    (h : (steps.map Prod.fst).Pairwise (BinhackPair.Apart scope)) {pair : BinhackPair}
    {address : UInt32} {bytes : List UInt8} (hmem : (pair, true) ∈ steps)
    (hrendered : pair.rendered? scope = some (address, bytes)) {i : Nat} (hi : i < bytes.length) :
    steps.foldl (laid scope) contents (address.toNat + i) = some bytes[i] := by
  induction steps generalizing contents with
  | nil => cases hmem
  | cons step rest ih =>
      obtain ⟨hfirst, hrest⟩ := List.pairwise_cons.mp h
      rcases List.mem_cons.mp hmem with hhead | htail
      · -- the later pairs are written elsewhere
        subst hhead
        rw [List.foldl_cons, foldl_laid_outside fun other start more hother hmore => ?_]
        · rw [laid, if_pos rfl, hrendered]
          exact Contents.overlaid_inside hi
        · have hplace := hfirst other (List.mem_map_of_mem hother) address bytes.length start
            more.length (BinhackPair.extent?_of_rendered? hrendered)
            (BinhackPair.extent?_of_rendered? hmore) (address.toNat + i) (by omega) (by omega)
          exact hplace
      · exact ih hrest htail

/-- The same pairs in another order, each with its verdict, leave the same contents. -/
theorem foldl_laid_perm {contents : Contents} {steps steps' : List (BinhackPair × Bool)}
    (hperm : steps.Perm steps') (h : (steps.map Prod.fst).Pairwise (BinhackPair.Apart scope)) :
    steps'.foldl (laid scope) contents = steps.foldl (laid scope) contents := by
  have h' : (steps'.map Prod.fst).Pairwise (BinhackPair.Apart scope) :=
    ((hperm.map Prod.fst).pairwise_iff fun hapart => BinhackPair.Apart.symm hapart).mp h
  funext place
  by_cases hwritten : ∃ pair address bytes, (pair, true) ∈ steps ∧
      pair.rendered? scope = some (address, bytes) ∧
      address.toNat ≤ place ∧ place < address.toNat + bytes.length
  · obtain ⟨pair, address, bytes, hmem, hrendered, hlow, hhigh⟩ := hwritten
    obtain ⟨i, rfl⟩ := Nat.exists_eq_add_of_le hlow
    rw [foldl_laid_inside h hmem hrendered (by omega),
      foldl_laid_inside h' (hperm.subset hmem) hrendered (by omega)]
  · have houtside : ∀ pair address bytes, (pair, true) ∈ steps →
        pair.rendered? scope = some (address, bytes) →
        place < address.toNat ∨ address.toNat + bytes.length ≤ place := by
      intro pair address bytes hmem hrendered
      by_contra hinside
      exact hwritten ⟨pair, address, bytes, hmem, hrendered, by omega, by omega⟩
    rw [foldl_laid_outside houtside,
      foldl_laid_outside fun pair address bytes hmem => houtside pair address bytes
        (hperm.symm.subset hmem)]

end Apart

/-! ## The stage -/

theorem pairs_perm {hacks hacks' : List Binhack} (h : hacks.Perm hacks') :
    (Binhack.pairs hacks).Perm (Binhack.pairs hacks') :=
  (h.filter _).flatMap_right _

theorem reportOn_perm {hacks hacks' : List Binhack} {verdicts verdicts' : List Bool}
    (h : hacks.Perm hacks') (hverdicts : verdicts.Perm verdicts') :
    reportOn hacks' verdicts' = reportOn hacks verdicts := by
  have hsites : Binhack.sites hacks' = Binhack.sites hacks := by
    rw [← Binhack.length_pairs, ← Binhack.length_pairs, (pairs_perm h).length_eq]
  have hwithdrawn : (hacks'.map Binhack.withdrawn).foldr (· + ·) 0 =
      (hacks.map Binhack.withdrawn).foldr (· + ·) 0 :=
    (h.map Binhack.withdrawn).sum_eq.symm
  simp only [reportOn, hsites, hwithdrawn, hverdicts.count_eq, h.countP_eq]

/-- The same entries in another order do the same to memory, and are reported in the same
way, if no two of their pairs have a place in common. -/
theorem order_of_apart_entries (symbols : Symbols) (options : Options) {b : Bench}
    (hm : b.memory.Quiet) {hacks hacks' : List Binhack} (hperm : hacks.Perm hacks')
    (hapart : (Binhack.pairs hacks).Pairwise
      (BinhackPair.Apart (.ofPatch symbols options b.memory))) :
    let stage := run symbols options b hacks
    let stage' := run symbols options b hacks'
    stage'.2.memory.byteAt? = stage.2.memory.byteAt? ∧
    stage'.2.memory.regions = stage.2.memory.regions ∧ stage'.1 = stage.1 := by
  intro stage stage'
  have hpairs := pairs_perm hperm
  have hapart' := (hpairs.pairwise_iff fun h => BinhackPair.Apart.symm h).mp hapart
  obtain ⟨hverdicts, hafter, hreport⟩ := run_eq symbols options b hacks
  obtain ⟨hverdicts', hafter', hreport'⟩ := run_eq symbols options b hacks'
  obtain ⟨-, honly, hbytes, -⟩ := triedAll_quiet (.ofPatch symbols options b.memory) hm
    (Binhack.pairs hacks)
  obtain ⟨-, honly', hbytes', -⟩ := triedAll_quiet (.ofPatch symbols options b.memory) hm
    (Binhack.pairs hacks')
  rw [← hafter] at honly hbytes
  rw [← hafter'] at honly' hbytes'
  -- each pair brings its verdict along, whatever its place in the list
  rw [triedAll_of_apart hm hapart] at hverdicts hbytes
  rw [triedAll_of_apart hm hapart'] at hverdicts' hbytes'
  rw [← List.map_prod_left_eq_zip] at hbytes hbytes'
  have hsteps := hpairs.map fun pair =>
    (pair, takes (.ofPatch symbols options b.memory) b.memory pair)
  refine ⟨?_, honly'.regions.trans honly.regions.symm, ?_⟩
  · rw [hbytes, hbytes']
    refine foldl_laid_perm hsteps ?_
    simpa only [List.map_map, Function.comp_def, List.map_id'] using hapart
  · rw [hreport, hreport', hverdicts, hverdicts']
    exact reportOn_perm hperm (hpairs.map _)

/-! ### Two entries side by side -/

/-- An entry for the two bytes behind those of `sampleHack`. -/
def neighbour : Binhack :=
  { sampleHack "C3 CC" (some "05 06") with addresses := [.expression "Rx1004"] }

theorem sample_order_of_apart_entries :
    let stage := run {} {} ⟨Memory.sampleMemory {}, []⟩ [sampleHack "90 90" none, neighbour]
    let stage' := run {} {} ⟨Memory.sampleMemory {}, []⟩ [neighbour, sampleHack "90 90" none]
    stage'.2.memory.byteAt? = stage.2.memory.byteAt? ∧
    stage'.1 = ⟨2, 2, 0, 0⟩ := by
  intro stage stage'
  have hfirst : BinhackPair.extent? (.ofPatch {} {} (Memory.sampleMemory {}))
      ⟨sampleHack "90 90" none, .absolute 0x401002⟩ = some (0x401002, 2) := by decide
  have hsecond : BinhackPair.extent? (.ofPatch {} {} (Memory.sampleMemory {}))
      ⟨neighbour, .expression "Rx1004"⟩ = some (0x401004, 2) := by decide
  have hall := order_of_apart_entries {} {} (b := ⟨Memory.sampleMemory {}, []⟩)
    ⟨by decide, rfl⟩ (.swap neighbour (sampleHack "90 90" none) []) ?apart
  case apart =>
    refine List.pairwise_pair.mpr fun address size address' size' h h' place hlow hhigh => ?_
    cases hfirst.symm.trans h
    cases hsecond.symm.trans h'
    exact Or.inl hhigh
  exact ⟨hall.1, hall.2.2.trans (by decide)⟩

end BinhackStage
end CodePatch
