/-
# What becomes of a memory that is used

A memory is built by mapping ranges, and then read, written, protected and
extended by allocations.  `Operation` lists what can be done to it, and
`Grounded` is what holds throughout: the ranges are listed by their bases, and
each of them is one of those mapped at the start, with other contents perhaps,
or lies below the next free address.

So an allocation has nothing to fear from earlier ones.  What it can meet is a
range that was mapped at the start, because nothing keeps the next free address
out of one; the new range then replaces it, or hides a part of it
(`allocation_replaces_a_range`).  Where that does not happen, the new range is
fresh in every respect, and all others are as before
(`allocations_are_fresh`).  The ranges mapped at the start may meet each other
or be empty: neither matters for the new one.
-/
import CodePatch.Proofs.Memory.Allocation
import CodePatch.Proofs.Memory.Failures

namespace CodePatch.Memory

/-- What can be done to a memory. -/
inductive Operation where
  | read (address : UInt32) (size : Nat)
  | query (address : UInt32)
  | protect (address : UInt32) (protection : Protection)
  | write (address : UInt32) (bytes : List UInt8)
  | allocate (size : Nat) (protection : Protection)
  | flush (address : UInt32)
  /-- Plans which accesses will fail from now on. -/
  | plan (faults : FaultPlan)

/-- The memory after an operation, whether it succeeds or fails. -/
def operate (m : Memory) : Operation → Memory
  | .read address size => (m.readBytes address size).2
  | .query address => (m.query address).2
  | .protect address protection => (m.protect address protection).2
  | .write address bytes => (m.write address bytes).2
  | .allocate size protection => (m.allocate size protection).2
  | .flush address => (m.flush address).2
  | .plan faults => { m with faults }

/-- The memory after one operation after the other. -/
def operations (m : Memory) (list : List Operation) : Memory :=
  list.foldl operate m

/-- The memory in which ranges are mapped, one after the other, and nothing is
allocated yet. -/
def built (moduleBase dispatcher : UInt32) (exports : List ModuleExport)
    (ranges : List Mapping) : Memory :=
  ranges.foldl map { moduleBase, dispatcher, exports }

/-- The ranges are listed by their bases, and each has the place of one that was mapped at
the start or lies below the next free address. -/
structure Grounded (ranges : List Mapping) (m : Memory) : Prop where
  ordered : m.Ordered
  origin : ∀ r ∈ m.mappings, (∃ s ∈ ranges, s.base = r.base ∧ s.size = r.size) ∨
    r.base.toNat + r.size ≤ m.nextAllocation.toNat

/-! ## What one operation does -/

/-- An operation leaves the space alone, changes a range in place, or maps whole pages of
zeros at the next free address. -/
theorem operate_cases (m : Memory) (operation : Operation) :
    (m.operate operation).space = m.space ∨
    (∃ base f, Mapping.InPlace f ∧ (m.operate operation).space = (m.modifyMapping base f).space) ∨
    ∃ size protection, operation = .allocate size protection ∧
      m.nextAllocation.toNat + roundToPages size < 2 ^ 32 ∧
      (m.operate operation).space =
        ({ m.map (.filled m.nextAllocation (roundToPages size) 0 protection) with
          nextAllocation := UInt32.ofNat (m.nextAllocation.toNat + roundToPages size) } :
            Memory).space := by
  cases operation with
  | read address size => exact Or.inl rfl
  | query address => exact Or.inl rfl
  | protect address protection =>
      rcases protect_cases m address protection with ⟨e, -, h⟩ | ⟨r, -, -, h⟩
      · exact Or.inl h
      · exact Or.inr (Or.inl ⟨r.base, _, Mapping.inPlace_guarded protection, h⟩)
  | write address bytes =>
      rcases write_cases m address bytes with ⟨e, -, h⟩ | ⟨r, -, -, -, h⟩
      · exact Or.inl h
      · exact Or.inr (Or.inl ⟨r.base, (·.written (address - r.base).toNat bytes),
          ⟨fun _ => rfl, fun _ => rfl⟩, h⟩)
  | allocate size protection =>
      rcases allocate_cases m size protection with ⟨e, -, h⟩ | ⟨-, -, hfits, h⟩
      · exact Or.inl h
      · exact Or.inr (Or.inr ⟨size, protection, rfl, hfits, h⟩)
  | flush address => exact Or.inl rfl
  | plan faults => exact Or.inl rfl

section Grounded
variable {ranges : List Mapping} {m m' : Memory}

theorem Grounded.of_space_eq (h : m.Grounded ranges) (hspace : m'.space = m.space) :
    m'.Grounded ranges := by
  have hmappings := mappings_eq_of_space_eq hspace
  have hnext := nextAllocation_of_space_eq hspace
  refine ⟨?_, ?_⟩
  · unfold Ordered
    rw [hmappings]
    exact h.ordered
  · rw [hmappings, hnext]
    exact h.origin

theorem Grounded.modifyMapping (h : m.Grounded ranges) {f : Mapping → Mapping}
    (hf : Mapping.InPlace f) (base : UInt32) : (m.modifyMapping base f).Grounded ranges := by
  have hsame := hf.ite base
  refine ⟨?_, ?_⟩
  · refine List.pairwise_map.mpr (List.Pairwise.imp ?_ h.ordered)
    intro r s hlt
    rw [hsame.base, hsame.base]
    exact hlt
  · intro r hr
    obtain ⟨old, hold, rfl⟩ := List.mem_map.mp hr
    rw [hsame.base, hsame.size]
    exact h.origin old hold

/-- A range may be mapped if it is one of those at the start, or goes below the next free
address. -/
theorem Grounded.map (h : m.Grounded ranges) {new : Mapping} {next : UInt32}
    (hnext : m.nextAllocation.toNat ≤ next.toNat)
    (hnew : new ∈ ranges ∨ new.base.toNat + new.size ≤ next.toNat) :
    ({ m.map new with nextAllocation := next } : Memory).Grounded ranges := by
  refine ⟨ordered_map h.ordered new, ?_⟩
  intro r hr
  rcases mem_insertMapping hr with rfl | hr
  · exact hnew.imp_left fun hmem => ⟨r, hmem, rfl, rfl⟩
  · exact (h.origin r hr).imp_right fun hbelow => hbelow.trans hnext

theorem grounded_built (moduleBase dispatcher : UInt32) (exports : List ModuleExport)
    (ranges : List Mapping) : (built moduleBase dispatcher exports ranges).Grounded ranges := by
  have hmapped : ∀ list ⊆ ranges, ∀ m : Memory, m.Grounded ranges →
      (list.foldl Memory.map m).Grounded ranges := by
    intro list
    induction list with
    | nil => exact fun _ m h => h
    | cons new rest ih =>
        intro hlist m h
        obtain ⟨hnew, hrest⟩ := List.cons_subset.mp hlist
        exact ih hrest _ (h.map (Nat.le_refl _) (Or.inl hnew))
  refine hmapped ranges (List.Subset.refl _) _ ⟨List.Pairwise.nil, ?_⟩
  intro r hr
  cases hr

/-- Whatever is done to a grounded memory, it stays grounded. -/
theorem Grounded.operate (h : m.Grounded ranges) (operation : Operation) :
    (m.operate operation).Grounded ranges := by
  rcases operate_cases m operation with
    hspace | ⟨base, f, hf, hspace⟩ | ⟨size, protection, -, hfits, hspace⟩
  · exact h.of_space_eq hspace
  · exact (h.modifyMapping hf base).of_space_eq hspace
  · refine (h.map ?_ (Or.inr ?_)).of_space_eq hspace
    · rw [UInt32.toNat_ofNat_of_lt' hfits]
      exact Nat.le_add_right ..
    · rw [UInt32.toNat_ofNat_of_lt' hfits]
      exact Nat.le_refl _

theorem Grounded.operations (h : m.Grounded ranges) (list : List Operation) :
    (m.operations list).Grounded ranges := by
  induction list generalizing m with
  | nil => exact h
  | cons operation rest ih => exact ih (h.operate operation)

/-- The next free address meets no range but one that was mapped at the start. -/
theorem Grounded.apart_next (h : m.Grounded ranges) {length : Nat}
    (hfree : ∀ s ∈ ranges, s.Apart m.nextAllocation.toNat length) :
    ∀ r ∈ m.mappings, r.Apart m.nextAllocation.toNat length := by
  intro r hr
  rcases h.origin r hr with ⟨s, hs, hbase, hsize⟩ | hbelow
  · have hs := hfree s hs
    unfold Mapping.Apart at hs ⊢
    rw [hbase, hsize] at hs
    exact hs
  · exact Or.inl hbelow

end Grounded

/-! ## Allocations -/

/-- From `m` to `m'`, bytes were mapped as an allocation should: as many as asked for, in
whole pages of zeros with the protection asked for, where nothing was mapped; all other
ranges are as before, with their bytes and protections, and found at the same addresses. -/
structure MappedFresh (m : Memory) (base : UInt32) (size : Nat) (protection : Protection)
    (m' : Memory) : Prop where
  room : size ≤ roundToPages size
  fits : base.toNat + roundToPages size < 2 ^ 32
  found : ∀ address : UInt32, base.toNat ≤ address.toNat →
    address.toNat < base.toNat + roundToPages size →
    m'.mappingAt? address = some (.filled base (roundToPages size) 0 protection)
  zeros : protection ≠ .noAccess → m'.bytesAt base size = .ok (List.replicate size 0)
  apart : ∀ r ∈ m.mappings, r.Apart base.toNat (roundToPages size)
  kept : ∀ r ∈ m.mappings, 0 < r.size → r ∈ m'.mappings
  sameRegions : ∀ address : UInt32,
    address.toNat < base.toNat ∨ base.toNat + roundToPages size ≤ address.toNat →
    (m'.query address).1 = (m.query address).1
  sameBytes : ∀ (address : UInt32) (length : Nat),
    address.toNat < base.toNat ∨ base.toNat + roundToPages size ≤ address.toNat →
    (m'.readBytes address length).1 = (m.readBytes address length).1

theorem fails_allocate (m : Memory) (size : Nat) (protection : Protection) (access : Access)
    (h : access ≠ .allocate) : (m.allocate size protection).2.fails access = m.fails access := by
  have hspends := spends_allocate m size protection access
  rw [if_neg h] at hspends
  exact hspends.failsAfter 0

section SameRange
variable {m m' : Memory} {address : UInt32} (hmap : m'.mappingAt? address = m.mappingAt? address)
include hmap

theorem query_congr (hfails : m'.fails .query = m.fails .query) :
    (m'.query address).1 = (m.query address).1 := by
  simp only [query, regionAt, hmap, hfails]

theorem readBytes_congr (hfails : m'.fails .read = m.fails .read) (length : Nat) :
    (m'.readBytes address length).1 = (m.readBytes address length).1 := by
  simp only [readBytes, bytesAt, hmap, hfails]

end SameRange

/-- In whatever way a memory that was built is used: if it grants an allocation that meets
no range mapped at the start, the new range is fresh. -/
theorem allocations_are_fresh (moduleBase dispatcher : UInt32) (exports : List ModuleExport)
    (ranges : List Mapping) (list : List Operation) {m : Memory}
    (hm : m = (built moduleBase dispatcher exports ranges).operations list)
    {size : Nat} {protection : Protection} {base : UInt32} {m' : Memory}
    (hok : m.allocate size protection = (.ok base, m'))
    (hfree : ∀ r ∈ ranges, r.Apart base.toNat (roundToPages size)) :
    m.MappedFresh base size protection m' := by
  have hgrounded : m.Grounded ranges := hm ▸ (grounded_built ..).operations list
  obtain rfl : (m.allocate size protection).2 = m' := congrArg Prod.snd hok
  have hok : (m.allocate size protection).1 = .ok base := congrArg Prod.fst hok
  obtain ⟨hbase, hpos, hfits, -⟩ := space_of_allocate hok
  have hroom : size ≤ roundToPages size := le_roundToPages size
  have hsome : 0 < roundToPages size := Nat.lt_of_lt_of_le hpos hroom
  have hapart : ∀ r ∈ m.mappings, r.Apart base.toNat (roundToPages size) :=
    hbase ▸ hgrounded.apart_next (hbase ▸ hfree)
  have hself : ∀ address : UInt32, base.toNat ≤ address.toNat →
      address.toNat < base.toNat + roundToPages size →
      (m.allocate size protection).2.mappingAt? address =
        some (.filled base (roundToPages size) 0 protection) :=
    fun _ => mappingAt?_allocate_self hgrounded.ordered hok hapart
  refine ⟨hroom, hfits, hself, ?_, hapart, ?_, ?_, ?_⟩
  · intro haccessible
    have hfound := hself base (Nat.le_refl _) (Nat.lt_add_of_pos_right hsome)
    refine bytesAt_eq_ok_iff.mpr ⟨_, hfound, haccessible, ?_, ?_⟩
    · simpa [Mapping.filled] using hroom
    · simp [Mapping.slice, Mapping.filled]
  · intro r hr hpos
    rw [mappings_allocate hok]
    exact mem_map_of_apart hapart hsome hr hpos
  · intro address hout
    exact query_congr (mappingAt?_allocate_outside hgrounded.ordered hok hapart hout)
      (fails_allocate m size protection .query (by decide))
  · intro address length hout
    exact readBytes_congr (mappingAt?_allocate_outside hgrounded.ordered hok hapart hout)
      (fails_allocate m size protection .read (by decide)) length

/-- A memory with code, in which two bytes were written and a page was allocated. -/
def usedMemory : Memory :=
  (built 0x400000 0x7FF00000 [] [.ofBytes 0x401000 [0x55, 0x8B, 0xEC] .executeReadWrite]).operations
    [.write 0x401001 [0x90, 0x90], .allocate 16 .readWrite]

/-- Two pages more: the code that was written is still there. -/
theorem sample_allocation_is_fresh :
    usedMemory.MappedFresh 0x10001000 5000 .executeRead
      (usedMemory.allocate 5000 .executeRead).2 ∧
    ((usedMemory.allocate 5000 .executeRead).2.readBytes 0x401000 3).1 =
      .ok [0x55, 0x90, 0x90] := by
  have hgranted : usedMemory.allocate 5000 .executeRead =
      (.ok 0x10001000, (usedMemory.allocate 5000 .executeRead).2) := Prod.ext rfl rfl
  have hfresh := allocations_are_fresh 0x400000 0x7FF00000 [] _ _ (rfl : usedMemory = _)
    hgranted (by decide)
  exact ⟨hfresh, hfresh.sameBytes 0x401000 3 (by decide)⟩

/-- A memory with one range, where the first allocation will go. -/
def obstructedMemory : Memory :=
  built 0x400000 0x7FF00000 [] [.ofBytes 0x10000000 [1, 2, 3, 4, 5, 6, 7, 8] .executeRead]

/-- An allocation is granted at the base of a range, which is gone afterwards: its bytes are
zeros and its protection is the one asked for. -/
theorem allocation_replaces_a_range :
    (obstructedMemory.allocate 16 .readWrite).1 = .ok 0x10000000 ∧
    ¬ obstructedMemory.MappedFresh 0x10000000 16 .readWrite
      (obstructedMemory.allocate 16 .readWrite).2 ∧
    obstructedMemory.bytesAt 0x10000000 8 = .ok [1, 2, 3, 4, 5, 6, 7, 8] ∧
    (obstructedMemory.allocate 16 .readWrite).2.bytesAt 0x10000000 8 =
      .ok [0, 0, 0, 0, 0, 0, 0, 0] ∧
    (obstructedMemory.allocate 16 .readWrite).2.regions = [⟨0x10000000, 0x1000, .readWrite⟩] := by
  refine ⟨rfl, fun hfresh => ?_, rfl, rfl, rfl⟩
  have hapart := hfresh.apart _ List.mem_cons_self
  exact absurd hapart (by decide)

end CodePatch.Memory
