/-
# Regions for caves

What allocating a region for each class gives: some of the regions that were
asked for, in the order of the classes, each behind the one before and all
below the end of the address space.  Nothing is assumed of the memory.  An
allocation may fail by plan or for want of addresses, and then there is simply
no region for that class.
-/
import CodePatch.Cave.Stage
import CodePatch.Proofs.Memory.Patch

namespace CodePatch

/-- The region ends before the other one begins. -/
def CaveRegion.Below (region other : CaveRegion) : Prop :=
  region.base.toNat + region.size ≤ other.base.toNat

namespace CaveStage

/-- An allocation fails and moves nothing, or gives the next free address and
moves it behind the new range. -/
theorem nextAllocation_cases (m : Memory) (size : Nat) (protection : Protection) :
    (m.allocate size protection).2.surroundings = m.surroundings ∧
    ((∃ e, (m.allocate size protection).1 = .error e) ∧
        (m.allocate size protection).2.nextAllocation = m.nextAllocation ∨
      (m.allocate size protection).1 = .ok m.nextAllocation ∧
        m.nextAllocation.toNat + size < 2 ^ 32 ∧
        m.nextAllocation.toNat + size ≤ (m.allocate size protection).2.nextAllocation.toNat) := by
  have hround := Memory.le_roundToPages size
  rcases Memory.allocate_cases m size protection with ⟨e, he, hspace⟩ | ⟨hok, -, hfits, hspace⟩
  · refine ⟨Memory.surroundings_eq_of_space_eq hspace, Or.inl ⟨⟨e, he⟩, ?_⟩⟩
    exact (congrArg Memory.nextAllocation hspace :)
  · refine ⟨(congrArg Memory.surroundings hspace :), Or.inr ⟨hok, by omega, ?_⟩⟩
    have hnext : (m.allocate size protection).2.nextAllocation =
        UInt32.ofNat (m.nextAllocation.toNat + Memory.roundToPages size) :=
      (congrArg Memory.nextAllocation hspace :)
    rw [hnext, UInt32.toNat_ofNat_of_lt' hfits]
    omega

section AllocateAll
variable (b : Bench) (classes : List (AccessClass × Nat))

theorem sublist_allocateAll :
    ((allocateAll b classes).1.map fun region => (region.access, region.size)).Sublist classes := by
  induction classes generalizing b with
  | nil => exact List.Sublist.refl _
  | cons first rest ih =>
      obtain ⟨access, size⟩ := first
      simp only [allocateAll]
      rcases b.memory.allocate size .readWrite with ⟨e | base, memory⟩
      · exact (ih _).cons _
      · exact (ih _).cons_cons _

theorem pairwise_access_allocateAll (h : classes.Pairwise fun first second => first.1 ≠ second.1) :
    (allocateAll b classes).1.Pairwise fun region other => region.access ≠ other.access := by
  have hsub := List.Pairwise.sublist (sublist_allocateAll b classes) h
  rw [List.pairwise_map] at hsub
  exact hsub

/-- No region begins below the next free address, and none ends behind the last. -/
theorem bounds_allocateAll :
    ∀ region ∈ (allocateAll b classes).1, b.memory.nextAllocation.toNat ≤ region.base.toNat ∧
      region.base.toNat + region.size < 2 ^ 32 := by
  induction classes generalizing b with
  | nil => exact fun _ h => absurd h List.not_mem_nil
  | cons first rest ih =>
      obtain ⟨access, size⟩ := first
      have hfirst := (nextAllocation_cases b.memory size .readWrite).2
      simp only [allocateAll]
      rcases hal : b.memory.allocate size .readWrite with ⟨e | base, memory⟩
      all_goals rw [hal] at hfirst
      · rcases hfirst with ⟨-, hnext⟩ | ⟨hok, -⟩
        · intro region hregion
          have h := ih _ region hregion
          rwa [Bench.memory_say, Bench.memory_withMemory, show memory.nextAllocation = _ from hnext]
            at h
        · cases hok
      · rcases hfirst with ⟨⟨e, he⟩, -⟩ | ⟨hok, hfits, hnext⟩
        · cases he
        · cases hok
          intro region hregion
          rcases List.mem_cons.mp hregion with rfl | hregion
          · exact ⟨Nat.le_refl _, hfits⟩
          · obtain ⟨hlow, hhigh⟩ := ih _ region hregion
            exact ⟨Nat.le_trans (Nat.le_trans (Nat.le_add_right ..) hnext) hlow, hhigh⟩

theorem pairwise_allocateAll : (allocateAll b classes).1.Pairwise CaveRegion.Below := by
  induction classes generalizing b with
  | nil => exact List.Pairwise.nil
  | cons first rest ih =>
      obtain ⟨access, size⟩ := first
      have hfirst := (nextAllocation_cases b.memory size .readWrite).2
      simp only [allocateAll]
      rcases hal : b.memory.allocate size .readWrite with ⟨e | base, memory⟩
      all_goals rw [hal] at hfirst
      · exact ih _
      · rcases hfirst with ⟨⟨e, he⟩, -⟩ | ⟨hok, -, hnext⟩
        · cases he
        · cases hok
          refine List.pairwise_cons.mpr ⟨fun region hregion => ?_, ih _⟩
          exact Nat.le_trans hnext (bounds_allocateAll _ rest region hregion).1

/-- A class has a region unless the allocation fails that is made for it in its turn. -/
theorem region_or_failed (h : classes.Pairwise fun first second => first.1 ≠ second.1) {k : Nat}
    {access : AccessClass} {size : Nat} (hk : classes[k]? = some (access, size)) :
    (∃ base, ((allocateAll b (classes.take k)).2.memory.allocate size .readWrite).1 = .ok base ∧
      ⟨access, base, size⟩ ∈ (allocateAll b classes).1) ∨
    (∃ e, ((allocateAll b (classes.take k)).2.memory.allocate size .readWrite).1 = .error e) ∧
      ∀ region ∈ (allocateAll b classes).1, region.access ≠ access := by
  induction classes generalizing b k with
  | nil => cases hk
  | cons first rest ih =>
      obtain ⟨hother, hrest⟩ := List.pairwise_cons.mp h
      cases k with
      | zero =>
          cases hk
          simp only [allocateAll, List.take_zero]
          rcases hal : b.memory.allocate size .readWrite with ⟨e | base, memory⟩
          · refine Or.inr ⟨⟨e, rfl⟩, fun region hregion => ?_⟩
            have hmem := (sublist_allocateAll _ rest).subset (List.mem_map_of_mem hregion)
            exact (hother _ hmem).symm
          · exact Or.inl ⟨base, rfl, List.mem_cons_self⟩
      | succ k =>
          have hne : first.1 ≠ access := hother _ (List.mem_of_getElem? hk)
          simp only [allocateAll, List.take_succ_cons]
          rcases b.memory.allocate first.2 .readWrite with ⟨e | base, memory⟩
          · exact ih _ hrest hk
          · refine (ih (b.withMemory memory) hrest hk).imp ?_ ?_
            · rintro ⟨base', hok, hmem⟩
              exact ⟨base', hok, List.mem_cons_of_mem _ hmem⟩
            · rintro ⟨hfailed, hall⟩
              refine ⟨hfailed, fun region hregion => ?_⟩
              rcases List.mem_cons.mp hregion with rfl | hregion
              · exact hne
              · exact hall region hregion

end AllocateAll

/-! ## Addresses -/

theorem below_or_below {regions : List CaveRegion} (h : regions.Pairwise CaveRegion.Below)
    {region other : CaveRegion} (hregion : region ∈ regions) (hother : other ∈ regions)
    (hne : region.access ≠ other.access) : region.Below other ∨ other.Below region :=
  List.Pairwise.forall_of_forall_of_flip
    (R := fun r s : CaveRegion => r.access ≠ s.access → r.Below s ∨ s.Below r)
    (fun _ _ hne => absurd rfl hne) (h.imp fun hbelow _ => Or.inl hbelow)
    (h.imp fun hbelow _ => Or.inr hbelow) hregion hother hne

theorem addressOf?_eq_some {regions : List CaveRegion} {slot : CaveSlot} {address : UInt32}
    (h : addressOf? regions slot = some address) :
    ∃ region, regions.find? (·.access = slot.access) = some region ∧ region ∈ regions ∧
      region.access = slot.access ∧ address = region.base + UInt32.ofNat slot.offset := by
  obtain ⟨region, hfind, rfl⟩ := Option.map_eq_some_iff.mp h
  have hsame : region.access = slot.access := by simpa using List.find?_some hfind
  exact ⟨region, hfind, List.mem_of_find?_eq_some hfind, hsame, rfl⟩

theorem addressOf?_eq_none_iff {regions : List CaveRegion} {slot : CaveSlot} :
    addressOf? regions slot = none ↔ ∀ region ∈ regions, region.access ≠ slot.access := by
  simp [addressOf?]

theorem toNat_address {region : CaveRegion} {slot : CaveSlot}
    (hfits : region.base.toNat + region.size < 2 ^ 32)
    (hslot : slot.offset + slot.padded ≤ region.size) :
    (region.base + UInt32.ofNat slot.offset).toNat = region.base.toNat + slot.offset := by
  rw [UInt32.toNat_add, UInt32.toNat_ofNat']
  omega

end CaveStage
end CodePatch
