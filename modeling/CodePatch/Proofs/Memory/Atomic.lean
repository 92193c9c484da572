/-
# A patch is made as a whole or not at all

`patch_atomic` is about every way in which the six accesses of a patch can
fail.  If it succeeds, the new bytes are there, all others are as they were and
the expected ones were found.  If it fails, no byte has changed and no write has
been made, with one exception: the flush comes behind the write, and a patch
whose flush failed has written all its bytes all the same.  On every path each
range has its old protection back, unless putting it back is what failed.

Bytes are looked at one by one and whatever the protection there (`byteAt?`),
since memory that cannot be accessed must not change either.  The bytes and the
list of regions are two views of a memory: a change of protection does not show
in the first, nor a write in the second.
-/
import CodePatch.Proofs.Memory.Patch

namespace CodePatch.Memory

/-! ## Single bytes -/

/-- The range that reaches over a place.  A place is a number, not an address, as a
range may reach past the last address. -/
def rangeOf? (m : Memory) (place : Nat) : Option Mapping :=
  m.mappings.find? fun r => r.base.toNat ≤ place ∧ place < r.base.toNat + r.size

/-- The byte at a place, whether it can be accessed or not. -/
def byteAt? (m : Memory) (place : Nat) : Option UInt8 :=
  (m.rangeOf? place).map fun r => r.byte (place - r.base.toNat)

section
variable {m m' : Memory} {r : Mapping} {f : Mapping → Mapping} {place : Nat}

theorem byteAt?_eq_of_space_eq (h : m'.space = m.space) (place : Nat) :
    m'.byteAt? place = m.byteAt? place :=
  show m'.space.byteAt? place = m.space.byteAt? place from h ▸ rfl

theorem regions_eq_of_space_eq (h : m'.space = m.space) : m'.regions = m.regions :=
  show m'.space.regions = m.space.regions from h ▸ rfl

theorem rangeOf?_modifyMapping (hf : Mapping.InPlace f) (base : UInt32) (place : Nat) :
    (m.modifyMapping base f).rangeOf? place =
      (m.rangeOf? place).map fun r => if r.base = base then f r else r := by
  have hsame := hf.ite base
  unfold rangeOf? modifyMapping
  rw [List.find?_map]
  simp only [Function.comp_def, hsame.base, hsame.size]

theorem reaches_of_rangeOf? (h : m.rangeOf? place = some r) :
    r ∈ m.mappings ∧ r.base.toNat ≤ place ∧ place < r.base.toNat + r.size := by
  unfold rangeOf? at h
  exact ⟨List.mem_of_find?_eq_some h, of_decide_eq_true (List.find?_some h :)⟩

theorem byteAt?_modifyMapping (hf : Mapping.InPlace f) {base : UInt32}
    (hbyte : ∀ r : Mapping, r.base = base → base.toNat ≤ place →
      (f r).byte (place - base.toNat) = r.byte (place - base.toNat)) :
    (m.modifyMapping base f).byteAt? place = m.byteAt? place := by
  unfold byteAt?
  rw [rangeOf?_modifyMapping hf, Option.map_map]
  refine Option.map_congr fun r hr => ?_
  have hlow := (reaches_of_rangeOf? hr).2.1
  show (if r.base = base then f r else r).byte
      (place - (if r.base = base then f r else r).base.toNat) = r.byte (place - r.base.toNat)
  split
  · rename_i heq
    rw [hf.base, heq]
    exact hbyte r heq (heq ▸ hlow)
  · rfl

theorem eq_of_base_eq (hm : m.Separate) {s : Mapping} (hr : r ∈ m.mappings)
    (hs : s ∈ m.mappings) (hbase : r.base = s.base) : r = s := by
  have hnot : ∀ a b : Mapping, a.base = b.base → ¬ a.Before b := by
    intro a b heq hb
    exact Nat.lt_irrefl _ (heq ▸ hb.1)
  exact eq_of_separate hm hr hs (hnot r s hbase) (hnot s r hbase.symm)

theorem rangeOf?_of_mem (hm : m.Separate) (hr : r ∈ m.mappings) (hlow : r.base.toNat ≤ place)
    (hhigh : place < r.base.toNat + r.size) : m.rangeOf? place = some r := by
  have hreach : decide (r.base.toNat ≤ place ∧ place < r.base.toNat + r.size) = true :=
    decide_eq_true ⟨hlow, hhigh⟩
  obtain ⟨s, hs⟩ : ∃ s, m.rangeOf? place = some s :=
    Option.isSome_iff_exists.mp (List.find?_isSome.mpr ⟨r, hr, hreach⟩)
  obtain ⟨hmem, hstart, hend⟩ := reaches_of_rangeOf? hs
  have heq : s = r := by
    refine eq_of_separate hm hmem hr ?_ ?_
    · intro hb
      have := hb.2
      omega
    · intro hb
      have := hb.2
      omega
  exact heq ▸ hs

theorem byteAt?_of_written (hm : m.Separate) (hr : r ∈ m.mappings) {start : Nat}
    {bytes : List UInt8} (hfit : start + bytes.length ≤ r.size) (p : Protection) {i : Nat}
    (hi : i < bytes.length) :
    (m.modifyMapping r.base fun x => (x.written start bytes).guarded p).byteAt?
      (r.base.toNat + start + i) = some bytes[i] := by
  have hrange : m.rangeOf? (r.base.toNat + start + i) = some r :=
    rangeOf?_of_mem hm hr (by omega) (by omega)
  have hbyte : (r.written start bytes).byte (start + i) = bytes[i] := by
    rw [Mapping.byte_written, if_pos (Nat.le_add_right ..), Nat.add_sub_cancel_left]
    exact List.getD_eq_getElem _ _ hi
  unfold byteAt?
  rw [rangeOf?_modifyMapping (Mapping.inPlace_patched start bytes p), hrange, Option.map_some,
    if_pos rfl, Option.map_some]
  refine congrArg some ?_
  show (r.written start bytes).byte (r.base.toNat + start + i - r.base.toNat) = bytes[i]
  rw [Nat.add_assoc, Nat.add_sub_cancel_left, hbyte]

end

/-! ## Protections -/

section
variable {m m' m'' : Memory} {base : UInt32}

theorem regions_modifyMapping (f : Mapping → Mapping) (g : Region → Region)
    (h : ∀ r : Mapping, (f r).region = g r.region) :
    (m.modifyMapping base f).regions =
      m.regions.map fun r => if r.base = base then g r else r := by
  unfold regions modifyMapping
  rw [List.map_map, List.map_map]
  refine List.map_congr_left fun r _ => ?_
  show Mapping.region (if r.base = base then f r else r) =
    if r.base = base then g r.region else r.region
  split
  · exact h r
  · rfl

theorem regions_guarded (p : Protection) :
    (m.modifyMapping base (Mapping.guarded p)).regions =
      m.regions.map fun r => if r.base = base then { r with protection := p } else r :=
  regions_modifyMapping (Mapping.guarded p) (fun r => { r with protection := p }) fun _ => rfl

theorem regions_written (start : Nat) (bytes : List UInt8) :
    (m.modifyMapping base (·.written start bytes)).regions = m.regions := by
  rw [regions_modifyMapping (·.written start bytes) id fun _ => rfl]
  refine (List.map_congr_left fun r _ => ?_).trans (List.map_id _)
  exact ite_self _

theorem regions_restored (hm : m.Separate) {r : Mapping} (hr : r ∈ m.mappings) {p : Protection}
    (h : m'.regions = (m.modifyMapping r.base (Mapping.guarded p)).regions)
    (h' : m''.space = (m'.modifyMapping r.base (Mapping.guarded r.protection)).space) :
    m''.regions = m.regions := by
  rw [regions_eq_of_space_eq h', regions_guarded, h, regions_guarded, List.map_map]
  unfold regions
  rw [List.map_map]
  refine List.map_congr_left fun s hs => ?_
  by_cases hbase : s.base = r.base
  · obtain rfl := eq_of_base_eq hm hs hr hbase
    simp [Mapping.region]
  · simp [Mapping.region, hbase]

end

/-- At most the protection of one range differs, and the range can be accessed. -/
inductive Reguarded (m m' : Memory) : Prop where
  | same (space : m'.space = m.space)
  | guarded {base : UInt32} {p : Protection} (access : p ≠ .noAccess)
      (space : m'.space = (m.modifyMapping base (Mapping.guarded p)).space)

section
variable {m m' : Memory}

theorem Reguarded.byteAt? (h : m.Reguarded m') (place : Nat) :
    m'.byteAt? place = m.byteAt? place := by
  cases h with
  | same hs => exact byteAt?_eq_of_space_eq hs place
  | guarded _ hs =>
      rw [byteAt?_eq_of_space_eq hs]
      exact byteAt?_modifyMapping (Mapping.inPlace_guarded _) fun _ _ _ => rfl

theorem Reguarded.keeps (h : m.Reguarded m') : m.Keeps (fun _ => True) m' := by
  cases h with
  | same hs => exact keeps_of_space_eq hs
  | guarded hp hs =>
      exact (keeps_modifyMapping (Mapping.inPlace_guarded _) (fun _ _ => hp)
        fun _ _ _ _ => rfl).trans (keeps_of_space_eq hs)

end

/-! ## From access to access -/

section Accesses
variable (m : Memory) (address : UInt32) (expected : Option (List UInt8)) (new : List UInt8)

theorem regions_compareAndWrite :
    (m.compareAndWrite address expected new).2.regions = m.regions := by
  rcases compareAndWrite_cases m address expected new with ⟨-, -, hs⟩ | ⟨r, -, -, -, -, hs⟩
  · exact regions_eq_of_space_eq hs
  · exact (regions_eq_of_space_eq hs).trans (regions_written _ new)

theorem baseAt?_compareAndWrite (other : UInt32) :
    (m.compareAndWrite address expected new).2.baseAt? other = m.baseAt? other := by
  rcases compareAndWrite_cases m address expected new with ⟨-, -, hs⟩ | ⟨r, -, -, -, -, hs⟩
  · exact baseAt?_eq_of_space_eq hs other
  · have hsame := (Mapping.InPlace.mk (fun _ => rfl) (fun _ => rfl) :
      Mapping.InPlace (·.written (address - r.base).toNat new))
    rw [baseAt?_eq_of_space_eq hs, baseAt?, mappingAt?_modifyMapping hsame, Option.map_map]
    exact congrArg (Option.map · _) (funext (hsame.ite r.base).base)

theorem writes_write_of_error {e : MemoryError} (h : (m.write address new).1 = .error e) :
    (m.write address new).2.writes = m.writes := by
  revert h
  unfold write
  split
  · exact fun _ => rfl
  · unfold writtenAt
    split
    · exact fun _ => rfl
    · dsimp only
      split
      · exact fun _ => rfl
      · split
        · exact fun _ => rfl
        · intro h
          cases h

theorem writes_compareAndWrite_of_error {e : MemoryError}
    (h : (m.compareAndWrite address expected new).1 = .error e) :
    (m.compareAndWrite address expected new).2.writes = m.writes := by
  revert h
  cases expected with
  | none => exact writes_write_of_error m address new
  | some old =>
      simp only [compareAndWrite]
      split
      · exact fun _ => rfl
      · split
        · exact writes_write_of_error (m.readBytes address old.length).2 address new
        · exact fun _ => rfl

theorem spends_compareAndWrite_none {access : Access} (hread : access ≠ .read)
    (hwrite : access ≠ .write) :
    m.Spends (m.compareAndWrite address expected new).2 access 0 := by
  obtain ⟨count, hspends, hnone⟩ := spends_compareAndWrite m address expected new access
  exact hnone hread hwrite ▸ hspends

/-- Behind the change of protection a patch fails at the comparison or the write, and
ends once the protection is put back, or it fails at the flush. -/
theorem patchWritable_error {old : Protection} {e : MemoryError}
    (h : (m.patchWritable address expected new old).result = .error e) :
    ((m.compareAndWrite address expected new).1 = .error e ∧
      (m.patchWritable address expected new old).memory =
        ((m.compareAndWrite address expected new).2.protect address old).2) ∨
    m.Failed (m.patchWritable address expected new old).memory .flush 0 := by
  have hbefore : m.Spends ((m.compareAndWrite address expected new).2.protect address old).2
      .flush 0 :=
    (spends_compareAndWrite_none m address expected new (by decide) (by decide)).trans
      (spends_protect _ address old .flush)
  revert h
  simp only [patchWritable]
  cases hchange : (m.compareAndWrite address expected new).1 with
  | error e' =>
      intro h
      exact Or.inl ⟨h, rfl⟩
  | ok u =>
      dsimp only
      split
      · intro h
        exact Or.inr ((failed_flush h).within hbefore (spends_zero rfl))
      · intro h
        cases h

theorem restore_spends (old : Protection) :
    ((m.compareAndWrite address expected new).2.protect address old).2.Spends
      (m.patchWritable address expected new old).memory .protect 0 := by
  simp only [patchWritable]
  cases (m.compareAndWrite address expected new).1 with
  | error e => exact spends_zero rfl
  | ok u =>
      dsimp only
      split
      · exact spends_flush _ address .protect
      · exact spends_zero rfl

/-- A patch that fails makes no write and changes at most the protection of its range,
unless it fails at the flush. -/
theorem unwritten_or_failed_flush {e : MemoryError}
    (h : (m.patch address expected new).result = .error e) :
    (m.Reguarded (m.patch address expected new).memory ∧
      (m.patch address expected new).memory.writes = m.writes) ∨
    m.Failed (m.patch address expected new).memory .flush 0 := by
  rcases patch_opens m address expected new with ⟨-, hs, hw⟩ | ⟨r, m₁, hgranted, hpatch⟩
  · exact Or.inl ⟨.same hs, hw⟩
  rw [hpatch] at h ⊢
  rcases patchWritable_error m₁ address expected new h with ⟨hchange, hmemory⟩ | hfailed
  case inr => exact Or.inr (hfailed.within hgranted.flushes (spends_zero rfl))
  refine Or.inl ⟨?_, ?_⟩
  · have hunchanged : (m₁.compareAndWrite address expected new).2.space = m₁.space := by
      rcases compareAndWrite_cases m₁ address expected new with ⟨-, -, hs⟩ | ⟨-, -, hok, -⟩
      · exact hs
      · rw [hok] at hchange
        cases hchange
    have hspace := hunchanged.trans hgranted.space
    have hrange := mappingAt?_granted hgranted.range hspace
    have hp := fun p => protection_of_granted (p := p) hgranted.covers
    rw [hmemory]
    rcases restore_cases _ address r.protection hrange with hback | hback
    · exact .guarded (hp _ (Or.inr rfl)) (hback.trans hspace)
    · have hrestored := space_eq_of_modify_modify (Mapping.inPlace_guarded _) hspace hback
      exact .guarded (hp _ (Or.inl rfl)) hrestored
  · rw [hmemory, writes_protect, writes_compareAndWrite_of_error m₁ address expected new hchange,
      hgranted.writes]

/-- A patch leaves every range with the protection that it had, unless it fails to
put it back. -/
theorem regions_or_failed_protect (hm : m.Separate) :
    (m.patch address expected new).memory.regions = m.regions ∨
      m.Failed (m.patch address expected new).memory .protect 1 := by
  rcases patch_opens m address expected new with ⟨-, hs, -⟩ | ⟨r, m₁, hgranted, hpatch⟩
  · exact Or.inl (regions_eq_of_space_eq hs)
  rw [hpatch]
  have hspends := spends_compareAndWrite_none m₁ address expected new
    (by decide : Access.protect ≠ .read) (by decide)
  have hbase : (m₁.compareAndWrite address expected new).2.baseAt? address = some r.base := by
    rw [baseAt?_compareAndWrite, baseAt?, mappingAt?_granted hgranted.range hgranted.space]
    rfl
  obtain ⟨changed, hchanged, hsame⟩ := Option.map_eq_some_iff.mp hbase
  rcases protect_or_failed hchanged r.protection with hfailed | hback
  · exact Or.inr (hfailed.within (hgranted.protects.trans hspends)
      (restore_spends m₁ address expected new r.protection))
  · refine Or.inl ?_
    rw [regions_eq_of_space_eq (space_patchWritable m₁ address expected new r.protection)]
    have hgrant : (m₁.compareAndWrite address expected new).2.regions =
        (m.modifyMapping r.base (Mapping.guarded r.protection.whilePatching)).regions := by
      rw [regions_compareAndWrite, regions_eq_of_space_eq hgranted.space]
    rw [hsame] at hback
    exact regions_restored hm (mem_of_mappingAt? hgranted.range).1 hgrant hback

/-- A patch that succeeds has found the expected bytes and written the new ones, and
no others. -/
theorem bytes_patch (hm : m.Separate) (h : (m.patch address expected new).result = .ok ()) :
    (∀ i (hi : i < new.length),
      (m.patch address expected new).memory.byteAt? (address.toNat + i) = some new[i]) ∧
    (∀ place, place < address.toNat ∨ address.toNat + new.length ≤ place →
      (m.patch address expected new).memory.byteAt? place = m.byteAt? place) ∧
    ∀ old, expected = some old → m.Holds address old := by
  rcases patch_cases m address expected new with ⟨⟨e, he⟩, -⟩ | ⟨r, hr, hcov, ht⟩
  · rw [h] at he
    cases he
  rcases ht with ⟨p, -, ⟨e, he⟩, -⟩ | ⟨p, -, hfit, hfound, hs⟩
  · rw [h] at he
    cases he
  have hlow := (mem_of_mappingAt? hr).2.1
  have hoffset := Mapping.toNat_sub_base hlow
  refine ⟨?_, ?_, hfound⟩
  · intro i hi
    have hplace : address.toNat + i = r.base.toNat + (address - r.base).toNat + i := by omega
    rw [byteAt?_eq_of_space_eq hs, hplace]
    exact byteAt?_of_written hm (mem_of_mappingAt? hr).1 hfit p hi
  · intro place hplace
    rw [byteAt?_eq_of_space_eq hs]
    refine byteAt?_modifyMapping (Mapping.inPlace_patched _ new p) fun x _ hx => ?_
    exact Mapping.byte_written_outside x (by omega)

end Accesses

/-! ## The patch as a whole -/

theorem patch_atomic {m : Memory} (hm : m.Separate) (address : UInt32)
    (expected : Option (List UInt8)) (new : List UInt8) {o : Outcome Unit}
    (ho : m.patch address expected new = o) :
    (o.result = .ok () →
      (∀ i (hi : i < new.length), o.memory.byteAt? (address.toNat + i) = some new[i]) ∧
      (∀ place, place < address.toNat ∨ address.toNat + new.length ≤ place →
        o.memory.byteAt? place = m.byteAt? place) ∧
      ∀ old, expected = some old → m.Holds address old) ∧
    (∀ e, o.result = .error e → (∀ n, ¬ m.Failed o.memory .flush n) →
      (∀ place, o.memory.byteAt? place = m.byteAt? place) ∧ o.memory.writes = m.writes) ∧
    (¬ m.Failed o.memory .protect 1 → o.memory.regions = m.regions) := by
  subst ho
  refine ⟨bytes_patch m address expected new hm, ?_, ?_⟩
  · intro e he hflush
    obtain ⟨hreguarded, hwrites⟩ :=
      (unwritten_or_failed_flush m address expected new he).resolve_right (hflush 0)
    exact ⟨hreguarded.byteAt?, hwrites⟩
  · intro hprotect
    exact (regions_or_failed_protect m address expected new hm).resolve_right hprotect

/-- Eight bytes of code, and two bytes behind them that nobody may access. -/
def sampleMemory (faults : FaultPlan) : Memory where
  mappings := [.ofBytes 0x401000 [1, 2, 3, 4, 5, 6, 7, 8] .executeRead,
    .ofBytes 0x402000 [9, 10] .noAccess]
  faults := faults

/-- One patch that is made, and the same one with a write that fails. -/
theorem sample_patch_atomic :
    ((sampleMemory {}).patch 0x401002 (some [3]) [0xE8, 0x90]).memory.byteAt? 0x401003 =
      some 0x90 ∧
    (∀ place,
      ((sampleMemory { write := [0] }).patch 0x401002 (some [3])
        [0xE8, 0x90]).memory.byteAt? place =
        (sampleMemory { write := [0] }).byteAt? place) ∧
    ((sampleMemory { write := [0] }).patch 0x401002 (some [3]) [0xE8, 0x90]).memory.regions =
      [⟨0x401000, 8, .executeRead⟩, ⟨0x402000, 2, .noAccess⟩] := by
  have hseparate : ∀ faults, (sampleMemory faults).Separate := by
    intro faults
    show (sampleMemory {}).Separate
    decide
  obtain ⟨hmade, -, -⟩ :=
    patch_atomic (hseparate {}) 0x401002 (some [3]) [0xE8, 0x90] rfl
  obtain ⟨-, hrefused, hregions⟩ :=
    patch_atomic (hseparate { write := [0] }) 0x401002 (some [3]) [0xE8, 0x90] rfl
  refine ⟨(hmade rfl).1 1 (by decide), ?_, ?_⟩
  · exact (hrefused (.writeFailed 0x401002 .injected) rfl fun n h => Bool.false_ne_true h.1).1
  · exact hregions fun h => Bool.false_ne_true h.1

end CodePatch.Memory
