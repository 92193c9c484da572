/-
# Patches where no access fails by plan

Without planned failures a patch is determined by what it finds: it is made if
and only if one accessible range covers its bytes and the expected ones are
there (`patch_ok_iff`), and then it lays its bytes over the old ones and does
nothing else (`patch_quiet`).

What it finds are the regions, which no patch changes, and the bytes at its own
addresses.  So whether a patch is made does not depend on what is written
elsewhere (`accepts_congr`); two patches that share no place cannot get in each
other's way.
-/
import CodePatch.Proofs.Memory.Allocation
import CodePatch.Proofs.Memory.Atomic

namespace CodePatch

/-! ## Contents -/

/-- The bytes at all places; `none` where nothing is mapped. -/
abbrev Contents := Nat → Option UInt8

/-- The contents with `bytes` laid over them from `start` on. -/
def Contents.overlaid (contents : Contents) (start : Nat) (bytes : List UInt8) : Contents :=
  fun place =>
    if start ≤ place ∧ place < start + bytes.length then bytes[place - start]?
    else contents place

namespace Contents

variable {contents : Contents} {start place : Nat} {bytes : List UInt8}

theorem overlaid_outside (h : place < start ∨ start + bytes.length ≤ place) :
    contents.overlaid start bytes place = contents place :=
  if_neg (by omega)

theorem overlaid_inside {i : Nat} (h : i < bytes.length) :
    contents.overlaid start bytes (start + i) = some bytes[i] := by
  have hin : start ≤ start + i ∧ start + i < start + bytes.length := by omega
  rw [overlaid, if_pos hin, Nat.add_sub_cancel_left]
  exact List.getElem?_eq_getElem h

end Contents

namespace Memory

/-- The ranges are apart, and no access is planned to fail. -/
structure Quiet (m : Memory) : Prop where
  separate : m.Separate
  faults : m.faults = {}

/-- Nothing but bytes, and the count of writes, differs. -/
structure OnlyBytes (m m' : Memory) : Prop where
  regions : m'.regions = m.regions
  surroundings : m'.surroundings = m.surroundings
  nextAllocation : m'.nextAllocation = m.nextAllocation

theorem OnlyBytes.refl (m : Memory) : m.OnlyBytes m :=
  ⟨rfl, rfl, rfl⟩

theorem OnlyBytes.trans {m m' m'' : Memory} (h : m.OnlyBytes m') (h' : m'.OnlyBytes m'') :
    m.OnlyBytes m'' :=
  ⟨h'.regions.trans h.regions, h'.surroundings.trans h.surroundings,
    h'.nextAllocation.trans h.nextAllocation⟩

/-! ## Nothing fails -/

section Quiet
variable {m m' : Memory}

theorem faults_of_leads (h : m.Leads m') (hm : m.faults = {}) : m'.faults = {} := by
  have hpending : ∀ access, m'.faults.pending access = [] := by
    intro access
    obtain ⟨count, hcount⟩ := h access
    have hnone : m.faults.pending access = [] := by
      rw [hm]
      cases access <;> rfl
    rw [Spends, hnone] at hcount
    exact hcount
  cases hplan : m'.faults with
  | mk read query protect write allocate flush =>
      rw [hplan] at hpending
      obtain rfl : read = [] := hpending .read
      obtain rfl : query = [] := hpending .query
      obtain rfl : protect = [] := hpending .protect
      obtain rfl : write = [] := hpending .write
      obtain rfl : allocate = [] := hpending .allocate
      obtain rfl : flush = [] := hpending .flush
      rfl

theorem fails_of_faultless (hm : m.faults = {}) (access : Access) : m.fails access = false := by
  rw [fails, hm]
  cases access <;> rfl

theorem not_failed_of_faultless (hm : m.faults = {}) (access : Access) (n : Nat) :
    ¬ m.Failed m' access n := by
  rintro ⟨hplanned, -⟩
  rw [hm] at hplanned
  cases access <;> cases hplanned

end Quiet

/-! ## What a patch looks at -/

/-- One accessible range covers the bytes of the patch, and the expected ones are there. -/
def Accepts (m : Memory) (address : UInt32) (expected : Option (List UInt8))
    (new : List UInt8) : Prop :=
  (∃ r, m.regionAt address = .ok r ∧ r.covers address (patchLength expected new) = .ok true ∧
    (address - r.base).toNat + new.length ≤ r.size) ∧
  ∀ old, expected = some old → m.Holds address old

theorem regionAt_eq_ok_iff {m : Memory} {address : UInt32} {region : Region} :
    m.regionAt address = .ok region ↔ ∃ r, m.mappingAt? address = some r ∧ r.region = region := by
  unfold regionAt
  cases m.mappingAt? address with
  | none => simp
  | some r => simp

theorem map_region_mappingAt? (m : Memory) (address : UInt32) :
    (m.mappingAt? address).map Mapping.region =
      (m.regions.filter (·.base ≤ address)).getLast?.filter
        fun r => address.toNat < r.base.toNat + r.size := by
  unfold mappingAt? regions
  rw [List.filter_map, List.getLast?_map, Option.filter_map]
  rfl

theorem regionAt_eq_of_regions_eq {m m' : Memory} (h : m'.regions = m.regions)
    (address : UInt32) : m'.regionAt address = m.regionAt address := by
  have hmap : (m'.mappingAt? address).map Mapping.region =
      (m.mappingAt? address).map Mapping.region := by
    rw [map_region_mappingAt?, map_region_mappingAt?, h]
  unfold regionAt
  cases hr : m.mappingAt? address with
  | none =>
      rw [hr] at hmap
      rw [Option.map_eq_none_iff.mp hmap]
  | some r =>
      rw [hr] at hmap
      obtain ⟨r', hr', hsame⟩ := Option.map_eq_some_iff.mp hmap
      rw [hr']
      exact congrArg Except.ok hsame

theorem holds_iff_byteAt? {m : Memory} (hm : m.Separate) {address : UInt32}
    {bytes : List UInt8} :
    m.Holds address bytes ↔
      (∃ r, m.regionAt address = .ok r ∧ r.protection ≠ .noAccess ∧
        (address - r.base).toNat + bytes.length ≤ r.size) ∧
      ∀ i (hi : i < bytes.length), m.byteAt? (address.toNat + i) = some bytes[i] := by
  -- a byte of the range that the address belongs to, by its place
  have hbyte : ∀ r, m.mappingAt? address = some r →
      (address - r.base).toNat + bytes.length ≤ r.size → ∀ i < bytes.length,
      m.byteAt? (address.toNat + i) = some (r.byte ((address - r.base).toNat + i)) := by
    intro r hr hfit i hi
    obtain ⟨hmem, hlow, -⟩ := mem_of_mappingAt? hr
    rw [Mapping.toNat_sub_base hlow] at hfit ⊢
    rw [byteAt?, rangeOf?_of_mem hm hmem (by omega) (by omega), Option.map_some]
    exact congrArg (some ∘ r.byte) (by omega)
  constructor
  · intro h
    obtain ⟨r, hr, hp, hfit, hslice⟩ := holds_iff.mp h
    refine ⟨⟨_, regionAt_eq_ok_iff.mpr ⟨r, hr, rfl⟩, hp, hfit⟩, fun i hi => ?_⟩
    rw [hbyte r hr hfit i hi, ← Mapping.getElem_slice r (by simpa using hi)]
    exact congrArg some ((List.ext_getElem_iff.mp hslice).2 i _ hi)
  · rintro ⟨⟨region, hregion, hp, hfit⟩, hall⟩
    obtain ⟨r, hr, rfl⟩ := regionAt_eq_ok_iff.mp hregion
    refine holds_iff.mpr ⟨r, hr, hp, hfit, List.ext_getElem (by simp) fun i hi hi' => ?_⟩
    rw [Mapping.getElem_slice]
    exact Option.some.inj ((hbyte r hr hfit i hi').symm.trans (hall i hi'))

/-- The regions and the bytes at its own places decide whether a patch is made. -/
theorem accepts_congr {m m' : Memory} (hm : m.Separate) (hm' : m'.Separate)
    (hregions : m'.regions = m.regions) {address : UInt32} {expected : Option (List UInt8)}
    {new : List UInt8} (hbytes : ∀ old, expected = some old → ∀ i < old.length,
      m'.byteAt? (address.toNat + i) = m.byteAt? (address.toNat + i)) :
    m'.Accepts address expected new ↔ m.Accepts address expected new := by
  unfold Accepts
  rw [regionAt_eq_of_regions_eq hregions]
  refine and_congr_right fun _ => forall_congr' fun old => forall_congr' fun ho => ?_
  rw [holds_iff_byteAt? hm, holds_iff_byteAt? hm', regionAt_eq_of_regions_eq hregions]
  refine and_congr_right fun _ => forall_congr' fun i => forall_congr' fun hi => ?_
  rw [hbytes old ho i hi]

/-! ## What a patch does -/

section Patch
variable {m : Memory} {address : UInt32} {expected : Option (List UInt8)} {new : List UInt8}

theorem write_ok (hm : m.faults = {}) {r : Mapping} (hr : m.mappingAt? address = some r)
    (hwritable : r.protection.isWritable = true)
    (hfit : (address - r.base).toNat + new.length ≤ r.size) : (m.write address new).1 = .ok () := by
  have hfails := fails_of_faultless hm .write
  have hr' : (m.spend .write 1).mappingAt? address = some r := hr
  simp [write, hfails, writtenAt, hr', hwritable, Nat.not_lt.mpr hfit]

theorem compareAndWrite_ok (hm : m.faults = {}) {r : Mapping}
    (hr : m.mappingAt? address = some r) (hwritable : r.protection.isWritable = true)
    (hfit : (address - r.base).toNat + new.length ≤ r.size)
    (hfound : ∀ old, expected = some old → m.Holds address old) :
    (m.compareAndWrite address expected new).1 = .ok () := by
  cases expected with
  | none => exact write_ok hm hr hwritable hfit
  | some old =>
      have hread : (m.readBytes address old.length).1 = .ok old := by
        rw [readBytes, if_neg (Bool.eq_false_iff.mp (fails_of_faultless hm .read))]
        exact hfound old rfl
      have hquiet : (m.readBytes address old.length).2.faults = {} :=
        faults_of_leads (fun access => ⟨_, spends_readBytes m address old.length access⟩) hm
      simp only [compareAndWrite, hread, if_true]
      exact write_ok hquiet hr hwritable hfit

theorem patch_ok_of_accepts (hm : m.faults = {}) (h : m.Accepts address expected new) :
    (m.patch address expected new).result = .ok () := by
  obtain ⟨⟨region, hregion, hcov, hfit⟩, hfound⟩ := h
  obtain ⟨r, hr, rfl⟩ := regionAt_eq_ok_iff.mp hregion
  have hquery : (m.query address).1 = .ok r.region := by
    rw [query, if_neg (Bool.eq_false_iff.mp (fails_of_faultless hm .query))]
    exact hregion
  have hm₀ : (m.query address).2.faults = {} :=
    faults_of_leads (fun access => ⟨_, spends_query m address access⟩) hm
  have hm₁ := faults_of_leads (fun access => ⟨_, spends_protect (m.query address).2 address
    r.region.protection.whilePatching access⟩) hm₀
  have haccess := protection_of_granted hcov (Or.inr rfl)
  have hkeeps := (spares_protect (m.query address).2 address haccess).keeps
  rw [patch_eq]
  simp only [hquery, hcov]
  -- write access is granted, and then nothing stands in the way
  rcases protect_cases (m.query address).2 address r.region.protection.whilePatching with
    ⟨e, he, -⟩ | ⟨r', hr', hok, hspace⟩
  · have hgranted : ((m.query address).2.protect address r.region.protection.whilePatching).1 =
        .ok r.protection := by
      have hr₀ : ((m.query address).2.spend .protect 1).mappingAt? address = some r := hr
      rw [protect, if_neg (Bool.eq_false_iff.mp (fails_of_faultless hm₀ .protect)), protectedAt,
        hr₀]
    rw [he] at hgranted
    cases hgranted
  obtain rfl : r = r' := Option.some.inj (hr.symm.trans hr')
  have hrange := mappingAt?_granted hr hspace
  have hwrote : (((m.query address).2.protect address
      r.region.protection.whilePatching).2.compareAndWrite address expected new).1 = .ok () :=
    compareAndWrite_ok hm₁ hrange (Protection.isWritable_whilePatching _) hfit
      fun old ho => hkeeps _ _ (fun _ _ => trivial) (hfound old ho)
  simp only [hok, patchWritable, hwrote]
  split
  · have hm₂ := faults_of_leads (fun access => ⟨_, (spends_compareAndWrite _ address expected new
      access).choose_spec.1⟩) hm₁
    have hm₃ :=
      faults_of_leads (fun access => ⟨_, spends_protect _ address r.protection access⟩) hm₂
    simp only [flush, fails_of_faultless hm₃]
    rfl
  · rfl

theorem patch_ok_iff (hm : m.faults = {}) :
    (m.patch address expected new).result = .ok () ↔ m.Accepts address expected new := by
  refine ⟨fun h => ?_, patch_ok_of_accepts hm⟩
  rcases patch_cases m address expected new with ⟨⟨e, he⟩, -⟩ | ⟨r, hr, hcov, ht⟩
  · rw [h] at he
    cases he
  · rcases ht with ⟨-, -, ⟨e, he⟩, -⟩ | ⟨-, -, hfit, hfound, -⟩
    · rw [h] at he
      cases he
    · exact ⟨⟨_, regionAt_eq_ok_iff.mpr ⟨r, hr, rfl⟩, hcov, hfit⟩, hfound⟩

/-- A patch lays its bytes over the old ones, or leaves all of them as they are. -/
theorem patch_quiet (hm : m.Quiet) (address : UInt32) (expected : Option (List UInt8))
    (new : List UInt8) :
    (m.patch address expected new).memory.Quiet ∧
    m.OnlyBytes (m.patch address expected new).memory ∧
    (m.patch address expected new).memory.byteAt? =
      if (m.patch address expected new).result = .ok ()
      then Contents.overlaid m.byteAt? address.toNat new else m.byteAt? := by
  have hseparate := (separate_patch m address expected new).mpr hm.separate
  have hfaults := faults_of_leads (leads_patch m address expected new) hm.faults
  have hregions := (regions_or_failed_protect m address expected new hm.separate).resolve_right
    (not_failed_of_faultless hm.faults _ _)
  refine ⟨⟨hseparate, hfaults⟩, ⟨hregions, surroundings_patch m address expected new,
    nextAllocation_patch m address expected new⟩, ?_⟩
  split
  · rename_i hok
    obtain ⟨hinside, houtside, -⟩ := bytes_patch m address expected new hm.separate hok
    funext place
    by_cases hplace : address.toNat ≤ place ∧ place < address.toNat + new.length
    · obtain ⟨i, rfl⟩ := Nat.exists_eq_add_of_le hplace.1
      rw [hinside i (by omega), Contents.overlaid_inside]
    · rw [houtside place (by omega), Contents.overlaid_outside (by omega)]
  · rename_i hfailed
    obtain ⟨e, he⟩ : ∃ e, (m.patch address expected new).result = .error e := by
      cases hresult : (m.patch address expected new).result with
      | error e => exact ⟨e, rfl⟩
      | ok u => exact absurd hresult hfailed
    have hsame := (unwritten_or_failed_flush m address expected new he).resolve_right
      (not_failed_of_faultless hm.faults _ _)
    exact funext hsame.1.byteAt?

end Patch

end Memory
end CodePatch
