/-
# The check of a range and the read behind it

Who wants bytes asks `Memory.checkRegion` first, and expects `Memory.readBytes` to do what the
check has promised.  The two find the end of the bytes in different ways: the read counts from
the base of the range, where it stops at once if there is no such end, and the check from address
zero, in 64 bits.

Below `2 ^ 64` both ways agree (`covers_of_fits`), and the check is passed by exactly the reads
that succeed.  A length so great that the end lies at or beyond `2 ^ 64` makes the sum overflow
wherever anything can be accessed at all (`covers_of_overflow`): instead of the answer that the
read would fail, there is none.

What is needed of the ranges is that they are shorter than `2 ^ 63` bytes, so that their own ends do
not overflow.  A range mapped at the start is, because its bytes were in memory before, and an
allocated one lies below `2 ^ 32`; so a memory keeps to it however it is used
(`Grounded.size_lt`).
-/
import CodePatch.Proofs.Memory.Operations

namespace CodePatch

namespace Region

section Covers
variable {r : Region} {address : UInt32} {length : Nat}

theorem endAddress_eq (hsize : r.size < 2 ^ 63) : r.endAddress = .ok (r.base.toNat + r.size) := by
  have hbase := r.base.toNat_lt
  refine Count.add_of_lt ?_
  unfold countRange UInt64.size
  omega

theorem contains_of_mem (hsize : r.size < 2 ^ 63) (hlow : r.base.toNat ≤ address.toNat)
    (hhigh : address.toNat < r.base.toNat + r.size) : r.contains address = .ok true := by
  rw [contains, if_pos (UInt32.le_iff_toNat_le.mpr hlow), endAddress_eq hsize]
  exact congrArg Except.ok (decide_eq_true hhigh)

theorem covers_of_fits (hsize : r.size < 2 ^ 63) (hin : r.contains address = .ok true)
    (hfits : address.toNat + length < 2 ^ 64) :
    r.covers address length = .ok (decide
      (r.protection ≠ .noAccess ∧ address.toNat + length ≤ r.base.toNat + r.size)) := by
  have hsum : Count.add address.toNat length = .ok (address.toNat + length) :=
    Count.add_of_lt hfits
  rw [covers, hin, hsum, endAddress_eq hsize]
  split
  · rename_i hguarded
    rw [hguarded]
    rfl
  · rename_i haccess
    exact congrArg Except.ok (decide_eq_decide.mpr (and_iff_right haccess).symm)

theorem covers_of_overflow (hin : r.contains address = .ok true)
    (hbeyond : 2 ^ 64 ≤ address.toNat + length) :
    r.covers address length = if r.protection = .noAccess then .ok false else .error .add := by
  have hsum : Count.add address.toNat length = .error .add := Count.add_of_le hbeyond
  rw [covers, hin, hsum]
  rfl

end Covers
end Region

namespace Memory

/-- However a memory is used, no range grows: the sizes at the start bound all sizes. -/
theorem Grounded.size_lt {ranges : List Mapping} {m : Memory} (h : m.Grounded ranges)
    (hranges : ∀ r ∈ ranges, r.size < 2 ^ 63) : ∀ r ∈ m.mappings, r.size < 2 ^ 63 := by
  intro r hr
  rcases h.origin r hr with ⟨s, hs, -, hsize⟩ | hbelow
  · exact hsize ▸ hranges s hs
  · have hnext := m.nextAllocation.toNat_lt
    omega

section Unfaulted
variable {m : Memory} {address : UInt32} {length : Nat}

theorem checkRegion_of_mappingAt? {r : Mapping} (hquery : m.fails .query = false)
    (hr : m.mappingAt? address = some r) :
    (m.checkRegion address length).1 = r.region.covers address length := by
  rw [checkRegion, query, hquery, if_neg Bool.false_ne_true, regionAt, hr]

theorem checkRegion_of_unmapped (hquery : m.fails .query = false)
    (hnone : m.mappingAt? address = none) : (m.checkRegion address length).1 = .ok false := by
  rw [checkRegion, query, hquery, if_neg Bool.false_ne_true, regionAt, hnone]

variable (length) in
theorem readBytes_of_mappingAt? {r : Mapping} (hread : m.fails .read = false)
    (hr : m.mappingAt? address = some r) :
    r.protection ≠ .noAccess ∧ address.toNat + length ≤ r.base.toNat + r.size ∧
        (∃ bytes, (m.readBytes address length).1 = .ok bytes) ∨
      ¬ (r.protection ≠ .noAccess ∧ address.toNat + length ≤ r.base.toNat + r.size) ∧
        ∃ e, (m.readBytes address length).1 = .error e := by
  have hlow := (mem_of_mappingAt? hr).2.1
  have hoffset := Mapping.toNat_sub_base hlow
  rw [readBytes, hread, if_neg Bool.false_ne_true, bytesAt, hr]
  by_cases haccess : r.protection = .noAccess
  · refine Or.inr ⟨fun h => h.1 haccess, _, if_pos haccess⟩
  by_cases hfit : (address - r.base).toNat + length ≤ r.size
  · refine Or.inl ⟨haccess, by omega, r.slice (address - r.base).toNat length, ?_⟩
    simp only [if_neg haccess, if_pos hfit]
  · refine Or.inr ⟨fun h => hfit (by omega), .readFailed address .readPastEnd, ?_⟩
    simp only [if_neg haccess, if_neg hfit]

theorem readBytes_of_unmapped (hread : m.fails .read = false)
    (hnone : m.mappingAt? address = none) : ∃ e, (m.readBytes address length).1 = .error e := by
  rw [readBytes, hread, if_neg Bool.false_ne_true, bytesAt, hnone]
  exact ⟨_, rfl⟩

variable (hquery : m.fails .query = false) (hread : m.fails .read = false)
  (hsizes : ∀ r ∈ m.mappings, r.size < 2 ^ 63)
include hquery hread hsizes

theorem checkRegion_of_fits (hfits : address.toNat + length < 2 ^ 64) :
    (m.checkRegion address length).1 = .ok true ∧
        (∃ bytes, (m.readBytes address length).1 = .ok bytes) ∨
      (m.checkRegion address length).1 = .ok false ∧
        ∃ e, (m.readBytes address length).1 = .error e := by
  cases hr : m.mappingAt? address with
  | none => exact Or.inr ⟨checkRegion_of_unmapped hquery hr, readBytes_of_unmapped hread hr⟩
  | some r =>
      obtain ⟨hmem, hlow, hhigh⟩ := mem_of_mappingAt? hr
      have hin := Region.contains_of_mem (r := r.region) (hsizes r hmem) hlow hhigh
      rw [checkRegion_of_mappingAt? hquery hr, Region.covers_of_fits (hsizes r hmem) hin hfits]
      rcases readBytes_of_mappingAt? length hread hr with
        ⟨haccess, hfit, hok⟩ | ⟨hbeyond, he⟩
      · exact Or.inl ⟨congrArg Except.ok (decide_eq_true ⟨haccess, hfit⟩), hok⟩
      · exact Or.inr ⟨congrArg Except.ok (decide_eq_false hbeyond), he⟩

/-- Where the end is beyond all counts, the read fails, and the check overflows unless nothing can
be read at the address anyway. -/
theorem checkRegion_of_overflow (hbeyond : 2 ^ 64 ≤ address.toNat + length) :
    ((m.checkRegion address length).1 = .error .add ∧ (m.readBytes address 0).1 = .ok [] ∨
      (m.checkRegion address length).1 = .ok false ∧ ∃ e, (m.readBytes address 0).1 = .error e) ∧
    ∃ e, (m.readBytes address length).1 = .error e := by
  cases hr : m.mappingAt? address with
  | none =>
      exact ⟨Or.inr ⟨checkRegion_of_unmapped hquery hr, readBytes_of_unmapped hread hr⟩,
        readBytes_of_unmapped hread hr⟩
  | some r =>
      obtain ⟨hmem, hlow, hhigh⟩ := mem_of_mappingAt? hr
      have hin := Region.contains_of_mem (r := r.region) (hsizes r hmem) hlow hhigh
      have hbase := r.base.toNat_lt
      have hsize := hsizes r hmem
      rw [checkRegion_of_mappingAt? hquery hr, Region.covers_of_overflow hin hbeyond]
      refine ⟨?_, ?_⟩
      · -- no bytes at all are read wherever the range is accessible
        rcases readBytes_of_mappingAt? 0 hread hr with
          ⟨haccess, -, bytes, hok⟩ | ⟨hnot, he⟩
        · have hempty := List.length_eq_zero_iff.mp (length_of_bytesAt (bytesAt_of_readBytes hok))
          exact Or.inl ⟨if_neg haccess, hempty ▸ hok⟩
        · refine Or.inr ⟨if_pos ?_, he⟩
          exact Decidable.byContradiction fun haccess => hnot ⟨haccess, by omega⟩
      · rcases readBytes_of_mappingAt? length hread hr with ⟨-, hfit, -⟩ | ⟨-, he⟩
        · omega
        · exact he

end Unfaulted

/-- In whatever way a memory that was built is used: a check for bytes whose end is a 64-bit count
is passed exactly where they can be read.  A check for more bytes than that overflows exactly where
the address can be read from at all, and reading them fails.  What is read has the length that was
asked for. -/
theorem check_is_read_unless_it_overflows (moduleBase dispatcher : UInt32)
    (exports : List ModuleExport) {ranges : List Mapping} (hranges : ∀ r ∈ ranges, r.size < 2 ^ 63)
    (list : List Operation) {m : Memory}
    (hm : m = (built moduleBase dispatcher exports ranges).operations list)
    (hquery : m.fails .query = false) (hread : m.fails .read = false) (address : UInt32)
    (length : Nat) :
    (address.toNat + length < 2 ^ 64 →
      ((m.checkRegion address length).1 = .ok true ↔
        ∃ bytes, (m.readBytes address length).1 = .ok bytes) ∧
      ((m.checkRegion address length).1 = .ok false ↔
        ∃ e, (m.readBytes address length).1 = .error e)) ∧
    (2 ^ 64 ≤ address.toNat + length →
      ((m.checkRegion address length).1 = .error .add ↔ (m.readBytes address 0).1 = .ok []) ∧
      ((m.checkRegion address length).1 = .ok false ↔
        ∃ e, (m.readBytes address 0).1 = .error e) ∧
      ∃ e, (m.readBytes address length).1 = .error e) ∧
    ∀ bytes, (m.readBytes address length).1 = .ok bytes → bytes.length = length := by
  have hsizes : ∀ r ∈ m.mappings, r.size < 2 ^ 63 :=
    (hm ▸ (grounded_built ..).operations list : m.Grounded ranges).size_lt hranges
  refine ⟨fun hfits => ?_, fun hbeyond => ?_,
    fun bytes hbytes => length_of_bytesAt (bytesAt_of_readBytes hbytes)⟩
  · rcases checkRegion_of_fits hquery hread hsizes hfits with ⟨hcheck, bytes, hok⟩ | ⟨hcheck, e, he⟩
    · simp [hcheck, hok]
    · simp [hcheck, he]
  · obtain ⟨hzero, hfails⟩ := checkRegion_of_overflow hquery hread hsizes hbeyond
    refine and_assoc.mp ⟨?_, hfails⟩
    rcases hzero with ⟨hcheck, hok⟩ | ⟨hcheck, e, he⟩
    · simp [hcheck, hok]
    · simp [hcheck, he]

/-- In a memory that was used, the last byte of a page that was allocated: it can be read, the one
behind it cannot, and a check for `2 ^ 64 - 1` bytes overflows. -/
theorem usedMemory_checks :
    (usedMemory.checkRegion 0x10000FFF 1).1 = .ok true ∧
      (usedMemory.checkRegion 0x10000FFF 2).1 = .ok false ∧
      (usedMemory.checkRegion 0x10000FFF (2 ^ 64 - 1)).1 = .error .add ∧
      ∃ e, (usedMemory.readBytes 0x10000FFF (2 ^ 64 - 1)).1 = .error e := by
  have hranges : ∀ r ∈ [Mapping.ofBytes 0x401000 [0x55, 0x8B, 0xEC] .executeReadWrite],
      r.size < 2 ^ 63 := by decide
  have hchecks := check_is_read_unless_it_overflows 0x400000 0x7FF00000 [] hranges _
    (rfl : usedMemory = _) rfl rfl 0x10000FFF
  have hone := ((hchecks 1).1 (by decide)).1
  have htwo := ((hchecks 2).1 (by decide)).2
  have hhuge := (hchecks (2 ^ 64 - 1)).2.1 (by decide)
  exact ⟨hone.mpr ⟨[0], rfl⟩, htwo.mpr ⟨_, rfl⟩, hhuge.1.mpr rfl, hhuge.2.2⟩

/-- A memory with six bytes of code. -/
def codeMemory : Memory :=
  built 0x400000 0x7FF00000 []
    [.ofBytes 0x401000 [0x55, 0x8B, 0xEC, 0x6A, 0xFF, 0xC3] .executeRead]

/-- The code is checked for as many bytes as there are from its address up to `2 ^ 64`: the read
fails, but there is no answer that says so. -/
theorem check_has_no_answer :
    (codeMemory.checkRegion 0x401000 (2 ^ 64 - 0x401000)).1 = .error .add ∧
      (codeMemory.readBytes 0x401000 (2 ^ 64 - 0x401000)).1 =
        .error (.readFailed 0x401000 .readPastEnd) :=
  ⟨by decide, by decide⟩

end Memory
end CodePatch
