/-
# What a memory holds

`Holds` says which bytes lie at an address, in one accessible range; it is
what reading them without a planned fault gives.  `Keeps spared` relates a
memory to a later one: whatever it held at spared addresses is still held
there.  The relation composes, so a stage keeps what each of its accesses
keeps, and it never mentions ranges or protections.

The accesses themselves are described once each, as what they can do: an
access fails and leaves the space as it is, or it succeeds and changes one
range in the way that is said (`protect_cases`, `write_cases`,
`allocate_cases`).  Everything later about memory starts from these.
-/
import CodePatch.Proofs.Memory.Map

namespace CodePatch

namespace Mapping

/-- The range with another protection. -/
def guarded (protection : Protection) (r : Mapping) : Mapping :=
  { r with protection }

theorem inPlace_guarded (protection : Protection) : InPlace (guarded protection) :=
  ⟨fun _ => rfl, fun _ => rfl⟩

theorem inPlace_patched (start : Nat) (bytes : List UInt8) (protection : Protection) :
    InPlace fun r => (r.written start bytes).guarded protection :=
  ⟨fun _ => rfl, fun _ => rfl⟩

@[simp] theorem length_slice (r : Mapping) (start size : Nat) :
    (r.slice start size).length = size := by
  simp [slice]

theorem getElem_slice (r : Mapping) {start size i : Nat} (h : i < (r.slice start size).length) :
    (r.slice start size)[i] = r.byte (start + i) := by
  simp [slice]

theorem slice_congr {r s : Mapping} {start size : Nat}
    (h : ∀ i < size, s.byte (start + i) = r.byte (start + i)) :
    s.slice start size = r.slice start size := by
  refine List.ext_getElem (by simp) fun i hi _ => ?_
  rw [getElem_slice, getElem_slice]
  exact h i (by simpa using hi)

theorem byte_written (r : Mapping) (start : Nat) (bytes : List UInt8) (i : Nat) :
    (r.written start bytes).byte i =
      if start ≤ i then bytes.getD (i - start) (r.byte i) else r.byte i := by
  simp [written, overlay]

theorem slice_written_self (r : Mapping) (start : Nat) (bytes : List UInt8) :
    (r.written start bytes).slice start bytes.length = bytes := by
  refine List.ext_getElem (by simp) fun i hi h => ?_
  rw [getElem_slice, byte_written, if_pos (Nat.le_add_right ..), Nat.add_sub_cancel_left,
    List.getD_eq_getElem?_getD, List.getElem?_eq_getElem h]
  rfl

theorem byte_written_outside (r : Mapping) {start : Nat} {bytes : List UInt8} {i : Nat}
    (h : i < start ∨ start + bytes.length ≤ i) : (r.written start bytes).byte i = r.byte i := by
  rw [byte_written]
  split
  · rw [List.getD_eq_getElem?_getD, List.getElem?_eq_none (by omega)]
    rfl
  · rfl

end Mapping

namespace Region

theorem contains_eq_ok_true {r : Region} {address : UInt32}
    (h : r.contains address = .ok true) :
    r.base.toNat ≤ address.toNat ∧ r.endAddress = .ok (r.base.toNat + r.size) := by
  unfold contains at h
  split at h
  · rename_i hlow
    cases hend : r.endAddress with
    | error kind =>
        rw [hend] at h
        cases h
    | ok last =>
        obtain rfl := Count.add_eq_ok hend
        exact ⟨UInt32.le_iff_toNat_le.mp hlow, rfl⟩
  · cases h

theorem covers_eq_ok_true {r : Region} {address : UInt32} {length : Nat}
    (h : r.covers address length = .ok true) :
    r.protection ≠ .noAccess ∧ r.base.toNat ≤ address.toNat ∧
      address.toNat + length ≤ r.base.toNat + r.size := by
  unfold covers at h
  split at h
  · cases h
  rename_i haccess
  rcases hin : r.contains address with kind | _ | _ <;> rw [hin] at h
  · cases h
  · cases h
  obtain ⟨hlow, hend⟩ := contains_eq_ok_true hin
  rw [hend] at h
  cases hsum : Count.add address.toNat length with
  | error kind =>
      rw [hsum] at h
      cases h
  | ok last =>
      rw [hsum] at h
      obtain rfl := Count.add_eq_ok hsum
      exact ⟨haccess, hlow, of_decide_eq_true (Except.ok.inj h)⟩

end Region

namespace Memory

/-- The bytes from `address` on are `bytes`, in one accessible range. -/
def Holds (m : Memory) (address : UInt32) (bytes : List UInt8) : Prop :=
  m.bytesAt address bytes.length = .ok bytes

/-- Whatever lay at spared addresses before lies there afterwards. -/
def Keeps (spared : Nat → Prop) (m m' : Memory) : Prop :=
  ∀ address bytes, (∀ i < bytes.length, spared (address.toNat + i)) →
    m.Holds address bytes → m'.Holds address bytes

/-! ## Holding bytes -/

theorem bytesAt_eq_ok_iff {m : Memory} {address : UInt32} {size : Nat} {bytes : List UInt8} :
    m.bytesAt address size = .ok bytes ↔
      ∃ r, m.mappingAt? address = some r ∧ r.protection ≠ .noAccess ∧
        (address - r.base).toNat + size ≤ r.size ∧
        r.slice (address - r.base).toNat size = bytes := by
  unfold bytesAt
  cases m.mappingAt? address with
  | none => simp
  | some r =>
      by_cases hp : r.protection = .noAccess
      · simp [hp]
      · by_cases hs : (address - r.base).toNat + size ≤ r.size <;> simp [hp, hs]

theorem length_of_bytesAt {m : Memory} {address : UInt32} {size : Nat} {bytes : List UInt8}
    (h : m.bytesAt address size = .ok bytes) : bytes.length = size := by
  obtain ⟨r, -, -, -, rfl⟩ := bytesAt_eq_ok_iff.mp h
  exact Mapping.length_slice ..

theorem length_of_readAfter {m : Memory} {count size : Nat} {address : UInt32}
    {bytes : List UInt8} (h : m.readAfter count address size = .ok bytes) :
    bytes.length = size := by
  rw [readAfter] at h
  split at h
  · cases h
  · exact length_of_bytesAt h

theorem readBytes_spend (m : Memory) (count : Nat) (address : UInt32) (size : Nat) :
    ((m.spend .read count).readBytes address size).1 = m.readAfter count address size := by
  rw [readBytes, fails, readAfter, spend, FaultPlan.failsAfter_advance, Nat.add_zero]
  rfl

theorem holds_of_bytesAt {m : Memory} {address : UInt32} {size : Nat} {bytes : List UInt8}
    (h : m.bytesAt address size = .ok bytes) : m.Holds address bytes := by
  unfold Holds
  rw [length_of_bytesAt h]
  exact h

theorem holds_iff {m : Memory} {address : UInt32} {bytes : List UInt8} :
    m.Holds address bytes ↔
      ∃ r, m.mappingAt? address = some r ∧ r.protection ≠ .noAccess ∧
        (address - r.base).toNat + bytes.length ≤ r.size ∧
        r.slice (address - r.base).toNat bytes.length = bytes :=
  bytesAt_eq_ok_iff

/-- A part of what is held is held at its own address.  The range must be the
one that the later address belongs to, so the memory has to be separate, and
the part must not be empty. -/
theorem Holds.part {m : Memory} (hm : m.Separate) {address : UInt32}
    {front middle back : List UInt8} (h : m.Holds address (front ++ middle ++ back))
    (hfit : address.toNat + (front ++ middle ++ back).length ≤ 2 ^ 32) (hne : 0 < middle.length) :
    m.Holds (address + UInt32.ofNat front.length) middle := by
  obtain ⟨r, hr, hp, hs, hb⟩ := holds_iff.mp h
  obtain ⟨hlow, hhigh⟩ := (mem_of_mappingAt? hr).2
  simp only [List.length_append] at hfit hs
  rw [Mapping.toNat_sub_base hlow] at hs hb
  have haddr : (address + UInt32.ofNat front.length).toNat = address.toNat + front.length := by
    rw [UInt32.toNat_add, UInt32.toNat_ofNat']
    omega
  have hin : r.Contains (address + UInt32.ofNat front.length) := by
    constructor <;> rw [haddr] <;> omega
  have hoff : (address + UInt32.ofNat front.length - r.base).toNat =
      address.toNat - r.base.toNat + front.length := by
    rw [Mapping.toNat_sub_base hin.1, haddr]
    omega
  refine holds_iff.mpr ⟨r, mappingAt?_of_contains hm hr hin, hp, ?_, ?_⟩
  · rw [hoff]
    omega
  · refine List.ext_getElem (by simp) fun i hi hi' => ?_
    have hall : front.length + i < (front ++ middle ++ back).length := by simp; omega
    have hbyte := (List.ext_getElem_iff.mp hb).2 (front.length + i) (by simpa using hall) hall
    rw [Mapping.getElem_slice] at hbyte
    rw [Mapping.getElem_slice, hoff, Nat.add_assoc, hbyte]
    simp [hi']

/-! ## Keeping bytes -/

theorem keeps_of_space_eq {spared : Nat → Prop} {m m' : Memory} (h : m'.space = m.space) :
    m.Keeps spared m' := by
  intro address bytes _ hb
  exact (bytesAt_eq_of_space_eq h address bytes.length).trans hb

theorem Keeps.trans {spared : Nat → Prop} {m m' m'' : Memory} (h : m.Keeps spared m')
    (h' : m'.Keeps spared m'') : m.Keeps spared m'' :=
  fun address bytes hs hb => h' address bytes hs (h address bytes hs hb)

theorem Keeps.mono {spared spared' : Nat → Prop} {m m' : Memory} (h : m.Keeps spared m')
    (hsub : ∀ i, spared' i → spared i) : m.Keeps spared' m' :=
  fun address bytes hs hb => h address bytes (fun i hi => hsub _ (hs i hi)) hb

theorem keeps_of_mappingAt? {m m' : Memory}
    (h : ∀ address r, m.mappingAt? address = some r → m'.mappingAt? address = some r) :
    m.Keeps (fun _ => True) m' := by
  intro address bytes _ hb
  obtain ⟨r, hr, hrest⟩ := holds_iff.mp hb
  exact holds_iff.mpr ⟨r, h address r hr, hrest⟩

/-- Changing one range keeps what is held at the addresses whose bytes the
change spares, as long as it takes no access away. -/
theorem keeps_modifyMapping {spared : Nat → Prop} {m : Memory} {base : UInt32}
    {f : Mapping → Mapping} (hf : Mapping.InPlace f)
    (hprot : ∀ r, r.protection ≠ .noAccess → (f r).protection ≠ .noAccess)
    (hbyte : ∀ r : Mapping, r.base = base → ∀ i, spared (base.toNat + i) →
      (f r).byte i = r.byte i) :
    m.Keeps spared (m.modifyMapping base f) := by
  intro address bytes hs hb
  obtain ⟨r, hr, hp, hlen, hslice⟩ := holds_iff.mp hb
  refine holds_iff.mpr ⟨if r.base = base then f r else r, ?_⟩
  rw [mappingAt?_modifyMapping hf, hr]
  refine ⟨rfl, ?_⟩
  split
  · rename_i heq
    rw [hf.base, hf.size]
    refine ⟨hprot r hp, hlen, (Mapping.slice_congr fun i hi => ?_).trans hslice⟩
    refine hbyte r heq _ ?_
    have hlow := (mem_of_mappingAt? hr).2.1
    have := hs i hi
    rw [Mapping.toNat_sub_base hlow]
    rwa [← heq, show r.base.toNat + (address.toNat - r.base.toNat + i) = address.toNat + i by omega]
  · exact ⟨hp, hlen, hslice⟩

/-! ## Accesses -/

@[simp] theorem space_readBytes (m : Memory) (address : UInt32) (size : Nat) :
    (m.readBytes address size).2.space = m.space := rfl

@[simp] theorem space_flush (m : Memory) (address : UInt32) :
    (m.flush address).2.space = m.space := rfl

@[simp] theorem space_checkRegion (m : Memory) (address : UInt32) (length : Nat) :
    (m.checkRegion address length).2.space = m.space := rfl

theorem bytesAt_of_readBytes {m : Memory} {address : UInt32} {size : Nat} {bytes : List UInt8}
    (h : (m.readBytes address size).1 = .ok bytes) : m.bytesAt address size = .ok bytes := by
  simp only [readBytes] at h
  split at h
  · cases h
  · exact h

theorem query_cases (m : Memory) (address : UInt32) :
    (∃ e, (m.query address).1 = .error e) ∨
      ∃ r, m.mappingAt? address = some r ∧ (m.query address).1 = .ok r.region := by
  simp only [query, regionAt]
  split
  · exact Or.inl ⟨_, rfl⟩
  · cases h : m.mappingAt? address with
    | none => exact Or.inl ⟨_, rfl⟩
    | some r => exact Or.inr ⟨r, rfl, rfl⟩

theorem bytesAt_of_covers {m : Memory} {address : UInt32} {length : Nat} {r : Mapping}
    (hr : m.mappingAt? address = some r) (hcov : r.region.covers address length = .ok true) :
    ∃ bytes, m.bytesAt address length = .ok bytes := by
  obtain ⟨haccess, -, hfit⟩ := Region.covers_eq_ok_true hcov
  have hlow := (mem_of_mappingAt? hr).2.1
  refine ⟨_, bytesAt_eq_ok_iff.mpr ⟨r, hr, haccess, ?_, rfl⟩⟩
  have hfit : address.toNat + length ≤ r.base.toNat + r.size := hfit
  rw [Mapping.toNat_sub_base hlow]
  omega

theorem bytesAt_of_checkRegion {m : Memory} {address : UInt32} {length : Nat}
    (h : (m.checkRegion address length).1 = .ok true) :
    ∃ bytes, m.bytesAt address length = .ok bytes := by
  simp only [checkRegion] at h
  rcases query_cases m address with ⟨e, hq⟩ | ⟨r, hr, hq⟩
  · rw [hq] at h
    cases h
  · rw [hq] at h
    exact bytesAt_of_covers hr h

theorem protect_cases (m : Memory) (address : UInt32) (protection : Protection) :
    (∃ e, (m.protect address protection).1 = .error e ∧
      (m.protect address protection).2.space = m.space) ∨
    ∃ r, m.mappingAt? address = some r ∧
      (m.protect address protection).1 = .ok r.protection ∧
      (m.protect address protection).2.space =
        (m.modifyMapping r.base (Mapping.guarded protection)).space := by
  unfold protect
  split
  · exact Or.inl ⟨_, rfl, rfl⟩
  · simp only [protectedAt]
    rw [show (m.spend .protect 1).mappingAt? address = m.mappingAt? address from rfl]
    cases h : m.mappingAt? address with
    | none => exact Or.inl ⟨_, rfl, rfl⟩
    | some r => exact Or.inr ⟨r, rfl, rfl, rfl⟩

theorem write_cases (m : Memory) (address : UInt32) (bytes : List UInt8) :
    (∃ e, (m.write address bytes).1 = .error e ∧ (m.write address bytes).2.space = m.space) ∨
    ∃ r, m.mappingAt? address = some r ∧ (m.write address bytes).1 = .ok () ∧
      (address - r.base).toNat + bytes.length ≤ r.size ∧
      (m.write address bytes).2.space =
        (m.modifyMapping r.base (·.written (address - r.base).toNat bytes)).space := by
  unfold write
  split
  · exact Or.inl ⟨_, rfl, rfl⟩
  · simp only [writtenAt]
    rw [show (m.spend .write 1).mappingAt? address = m.mappingAt? address from rfl]
    cases h : m.mappingAt? address with
    | none => exact Or.inl ⟨_, rfl, rfl⟩
    | some r =>
        dsimp only
        split
        · exact Or.inl ⟨_, rfl, rfl⟩
        · split
          · exact Or.inl ⟨_, rfl, rfl⟩
          · rename_i hfit
            exact Or.inr ⟨r, rfl, rfl, Nat.le_of_not_lt hfit, rfl⟩

theorem le_roundToPages (size : Nat) : size ≤ roundToPages size := by
  unfold roundToPages pagesFor pageSize
  omega

theorem allocationEnd_eq_ok {base : UInt32} {size next : Nat}
    (h : allocationEnd base size = .ok next) : next = base.toNat + roundToPages size := by
  unfold allocationEnd at h
  cases hrounded : Count.multiply (pagesFor size) pageSize with
  | error kind =>
      rw [hrounded] at h
      cases h
  | ok rounded =>
      rw [hrounded] at h
      obtain rfl := Count.multiply_eq_ok hrounded
      exact Count.add_eq_ok h
/-- An allocation fails and maps nothing, or maps zeros in whole pages at the
next free address, all of them below the end of the address space. -/
theorem allocate_cases (m : Memory) (size : Nat) (protection : Protection) :
    (∃ e, (m.allocate size protection).1 = .error e ∧
      (m.allocate size protection).2.space = m.space) ∨
    ((m.allocate size protection).1 = .ok m.nextAllocation ∧
      0 < size ∧ m.nextAllocation.toNat + roundToPages size < 2 ^ 32 ∧
      (m.allocate size protection).2.space =
        ({ m.map (.filled m.nextAllocation (roundToPages size) 0 protection) with
          nextAllocation := UInt32.ofNat (m.nextAllocation.toNat + roundToPages size) } :
            Memory).space) := by
  unfold allocate
  split
  · exact Or.inl ⟨_, rfl, rfl⟩
  · simp only [allocated]
    split
    · exact Or.inl ⟨_, rfl, rfl⟩
    · rename_i hsize
      rw [show (m.spend .allocate 1).nextAllocation = m.nextAllocation from rfl]
      cases hend : allocationEnd m.nextAllocation size with
      | error kind => exact Or.inl ⟨_, rfl, rfl⟩
      | ok next =>
          obtain rfl := allocationEnd_eq_ok hend
          dsimp only
          split
          · exact Or.inl ⟨_, rfl, rfl⟩
          · rename_i hfit
            exact Or.inr ⟨rfl, Nat.pos_of_ne_zero hsize, Nat.lt_of_not_le hfit, rfl⟩

end Memory
end CodePatch
