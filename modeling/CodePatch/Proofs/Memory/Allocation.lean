/-
# What an allocation does to memory

An allocation that succeeds in a separate memory, at addresses where nothing
is mapped, puts one range there and changes nothing else: `Grown` lists what a
stage needs of that.  Nothing in the memory itself prevents the next free
address from lying in a mapped range, so that it does not is a hypothesis
(`Apart`) wherever allocations are spoken of.
-/
import CodePatch.Proofs.Memory.Patch

namespace CodePatch.Memory

/-- `m'` is `m` with `size` bytes more, in whole pages from `base` on. -/
structure Grown (m : Memory) (base : UInt32) (size : Nat) (protection : Protection)
    (m' : Memory) : Prop where
  separate : m'.Separate
  surroundings : m'.surroundings = m.surroundings
  fits : base.toNat + roundToPages size < 2 ^ 32
  /-- The new range is where it was asked for. -/
  found : ∀ address : UInt32, base.toNat ≤ address.toNat →
    address.toNat < base.toNat + roundToPages size →
    m'.mappingAt? address = some (.filled base (roundToPages size) 0 protection)
  /-- All other addresses belong to the range that they belonged to. -/
  others : ∀ address r, m.mappingAt? address = some r → m'.mappingAt? address = some r
  mem : ∀ r ∈ m'.mappings, r = .filled base (roundToPages size) 0 protection ∨ r ∈ m.mappings
  start : base = m.nextAllocation
  next : m'.nextAllocation.toNat = base.toNat + roundToPages size

theorem space_of_allocate {m : Memory} {base : UInt32} {size : Nat} {protection : Protection}
    (hok : (m.allocate size protection).1 = .ok base) :
    base = m.nextAllocation ∧ 0 < size ∧ base.toNat + roundToPages size < 2 ^ 32 ∧
      (m.allocate size protection).2.space =
        ({ m.map (.filled base (roundToPages size) 0 protection) with
          nextAllocation := UInt32.ofNat (base.toNat + roundToPages size) } : Memory).space := by
  rcases allocate_cases m size protection with ⟨e, he, -⟩ | ⟨hbase, hpos, hfits, hspace⟩
  · rw [hok] at he
    cases he
  · obtain rfl : base = m.nextAllocation := Except.ok.inj (hok.symm.trans hbase)
    exact ⟨rfl, hpos, hfits, hspace⟩

section Allocate
variable {m : Memory} {base : UInt32} {size : Nat} {protection : Protection}
  (hm : m.Ordered) (hok : (m.allocate size protection).1 = .ok base)
  (hfree : ∀ r ∈ m.mappings, r.Apart base.toNat (roundToPages size))

include hok in
theorem mappings_allocate :
    (m.allocate size protection).2.mappings =
      (m.map (.filled base (roundToPages size) 0 protection)).mappings :=
  (congrArg Memory.mappings (space_of_allocate hok).2.2.2 :)

include hok in
theorem mappingAt?_allocate (address : UInt32) :
    (m.allocate size protection).2.mappingAt? address =
      (m.map (.filled base (roundToPages size) 0 protection)).mappingAt? address := by
  unfold mappingAt?
  rw [mappings_allocate hok]

include hm hok hfree

theorem mappingAt?_allocate_self {address : UInt32} (hlow : base.toNat ≤ address.toNat)
    (hhigh : address.toNat < base.toNat + roundToPages size) :
    (m.allocate size protection).2.mappingAt? address =
      some (.filled base (roundToPages size) 0 protection) := by
  rw [mappingAt?_allocate hok]
  exact mappingAt?_map_self hfree hm ⟨hlow, hhigh⟩

theorem mappingAt?_allocate_outside {address : UInt32}
    (hout : address.toNat < base.toNat ∨ base.toNat + roundToPages size ≤ address.toNat) :
    (m.allocate size protection).2.mappingAt? address = m.mappingAt? address := by
  have hsome : 0 < roundToPages size :=
    Nat.lt_of_lt_of_le (space_of_allocate hok).2.1 (le_roundToPages size)
  rw [mappingAt?_allocate hok]
  refine mappingAt?_map_outside hfree hm hsome ?_
  rintro ⟨hlow, hhigh⟩
  exact hout.elim (Nat.not_lt_of_le hlow) (Nat.not_le_of_lt hhigh)

end Allocate

theorem grown_of_allocate {m : Memory} {base : UInt32} {size : Nat} {protection : Protection}
    (hm : m.Separate) (hok : (m.allocate size protection).1 = .ok base)
    (hfree : ∀ r ∈ m.mappings, r.Apart base.toNat (roundToPages size)) :
    m.Grown base size protection (m.allocate size protection).2 := by
  obtain ⟨hbase, -, hfits, hspace⟩ := space_of_allocate hok
  refine ⟨?_, (congrArg Memory.surroundings hspace :), hfits, ?_, ?_, ?_, hbase, ?_⟩
  · unfold Separate
    rw [mappings_allocate hok]
    exact separate_map hm hfree
  · intro address hlow hhigh
    exact mappingAt?_allocate_self hm.ordered hok hfree hlow hhigh
  · intro address r hr
    rw [mappingAt?_allocate_outside hm.ordered hok hfree, hr]
    obtain ⟨hmem, hlow, hhigh⟩ := mem_of_mappingAt? hr
    rcases hfree r hmem with h | h
    · exact Or.inl (Nat.lt_of_lt_of_le hhigh h)
    · exact Or.inr (h.trans hlow)
  · intro r hr
    rw [mappings_allocate hok] at hr
    exact mem_insertMapping hr
  · have hnext : (m.allocate size protection).2.nextAllocation =
        UInt32.ofNat (base.toNat + roundToPages size) :=
      (congrArg Memory.nextAllocation hspace :)
    rw [hnext, UInt32.toNat_ofNat_of_lt' hfits]

theorem Grown.keeps {m m' : Memory} {base : UInt32} {size : Nat} {protection : Protection}
    (h : m.Grown base size protection m') : m.Keeps (fun _ => True) m' :=
  keeps_of_mappingAt? h.others

/-! ## The next free address

Only an allocation moves it, and never back. -/

section Next
variable (m : Memory) (address : UInt32)

theorem nextAllocation_of_space_eq {m m' : Memory} (h : m'.space = m.space) :
    m'.nextAllocation = m.nextAllocation :=
  (congrArg Memory.nextAllocation h :)

theorem nextAllocation_protect (protection : Protection) :
    (m.protect address protection).2.nextAllocation = m.nextAllocation := by
  rcases protect_cases m address protection with ⟨e, -, h⟩ | ⟨r, -, -, h⟩
  · exact nextAllocation_of_space_eq h
  · exact nextAllocation_of_space_eq (m := m.modifyMapping _ _) h

theorem nextAllocation_write (bytes : List UInt8) :
    (m.write address bytes).2.nextAllocation = m.nextAllocation := by
  rcases write_cases m address bytes with ⟨e, -, h⟩ | ⟨r, -, -, -, h⟩
  · exact nextAllocation_of_space_eq h
  · exact nextAllocation_of_space_eq (m := m.modifyMapping _ _) h

theorem nextAllocation_patch (expected : Option (List UInt8)) (new : List UInt8) :
    (m.patch address expected new).memory.nextAllocation = m.nextAllocation := by
  rcases space_patch_cases m address expected new with h | ⟨r, f, -, -, h⟩
  · exact nextAllocation_of_space_eq h
  · exact nextAllocation_of_space_eq (m := m.modifyMapping _ _) h

/-- Whatever size is asked for, the next allocation goes no further down. -/
theorem nextAllocation_le_allocate (size : Nat) (protection : Protection) :
    m.nextAllocation.toNat ≤ (m.allocate size protection).2.nextAllocation.toNat := by
  rcases allocate_cases m size protection with ⟨e, -, h⟩ | ⟨-, -, hfits, h⟩
  · exact Nat.le_of_eq (congrArg UInt32.toNat (nextAllocation_of_space_eq h)).symm
  · have hnext : (m.allocate size protection).2.nextAllocation =
        UInt32.ofNat (m.nextAllocation.toNat + roundToPages size) :=
      (congrArg Memory.nextAllocation h :)
    rw [hnext, UInt32.toNat_ofNat_of_lt' hfits]
    exact Nat.le_add_right ..

end Next

end CodePatch.Memory
