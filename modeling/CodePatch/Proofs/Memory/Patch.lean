/-
# What a patch does to memory

`patch_cases` lists everything that `Memory.patch` can do, whatever accesses
fail on the way: nothing; a change of protection that may not have been taken
back; or the same with all of the new bytes written.  There is no case in
which some of the bytes are written, and none in which other bytes change.

The theorems behind it are what the stages use: what is held elsewhere stays
(`keeps_patch`), and the new bytes are there unless every byte is as it was
(`holds_or_keeps_patch`).
-/
import CodePatch.Proofs.Memory.Failures
import CodePatch.Memory.Patch

namespace CodePatch.Memory

/-- What no access to memory changes. -/
def surroundings (m : Memory) : UInt32 × UInt32 × List ModuleExport :=
  (m.moduleBase, m.dispatcher, m.exports)

/-- The base of the range that an address belongs to. -/
def baseAt? (m : Memory) (address : UInt32) : Option UInt32 :=
  (m.mappingAt? address).map (·.base)

theorem surroundings_eq_of_space_eq {m m' : Memory} (h : m'.space = m.space) :
    m'.surroundings = m.surroundings :=
  show m'.space.surroundings = m.space.surroundings from h ▸ rfl

theorem baseAt?_eq_of_space_eq {m m' : Memory} (h : m'.space = m.space) (address : UInt32) :
    m'.baseAt? address = m.baseAt? address :=
  congrArg (Option.map _) (mappingAt?_eq_of_space_eq h address)

/-! ## Everything a patch can do -/

/-- A comparison and a write fail and write nothing, or find the expected bytes
and write all the new ones into one range. -/
theorem compareAndWrite_cases (m : Memory) (address : UInt32) (expected : Option (List UInt8))
    (new : List UInt8) :
    (∃ e, (m.compareAndWrite address expected new).1 = .error e ∧
      (m.compareAndWrite address expected new).2.space = m.space) ∨
    ∃ r, m.mappingAt? address = some r ∧
      (m.compareAndWrite address expected new).1 = .ok () ∧
      (∀ old, expected = some old → m.Holds address old) ∧
      (address - r.base).toNat + new.length ≤ r.size ∧
      (m.compareAndWrite address expected new).2.space =
        (m.modifyMapping r.base (·.written (address - r.base).toNat new)).space := by
  cases expected with
  | none =>
      rcases write_cases m address new with h | ⟨r, hr, hok, hfit, hs⟩
      · exact Or.inl h
      · exact Or.inr ⟨r, hr, hok, fun _ h => (nomatch h), hfit, hs⟩
  | some old =>
      simp only [compareAndWrite]
      cases hread : (m.readBytes address old.length).1 with
      | error e => exact Or.inl ⟨e, rfl, rfl⟩
      | ok found =>
          dsimp only
          split
          · rename_i heq
            subst heq
            rcases write_cases (m.readBytes address found.length).2 address new with
              h | ⟨r, hr, hok, hfit, hs⟩
            · exact Or.inl h
            · refine Or.inr ⟨r, hr, hok, ?_, hfit, hs⟩
              rintro old ⟨⟩
              exact bytesAt_of_readBytes hread
          · exact Or.inl ⟨_, rfl, rfl⟩

theorem restore_cases (m : Memory) (address : UInt32) (protection : Protection) {r : Mapping}
    (hr : m.mappingAt? address = some r) :
    (m.protect address protection).2.space = m.space ∨
      (m.protect address protection).2.space =
        (m.modifyMapping r.base (Mapping.guarded protection)).space := by
  rcases protect_cases m address protection with ⟨_, _, h⟩ | ⟨r', hr', _, h⟩
  · exact Or.inl h
  · rw [hr] at hr'
    cases hr'
    exact Or.inr h

theorem space_patchWritable (m : Memory) (address : UInt32) (expected : Option (List UInt8))
    (new : List UInt8) (old : Protection) :
    (m.patchWritable address expected new old).memory.space =
      ((m.compareAndWrite address expected new).2.protect address old).2.space := by
  simp only [patchWritable]
  cases (m.compareAndWrite address expected new).1 with
  | error e => rfl
  | ok u =>
      dsimp only
      split <;> rfl

theorem result_patchWritable_of_error {m : Memory} {address : UInt32}
    {expected : Option (List UInt8)} {new : List UInt8} (old : Protection) {e : MemoryError}
    (h : (m.compareAndWrite address expected new).1 = .error e) :
    (m.patchWritable address expected new old).result = .error e := by
  simp only [patchWritable, h]

/-- A patch step by step, each access by what it returns and the memory after it. -/
theorem patch_eq (m : Memory) (address : UInt32) (expected : Option (List UInt8))
    (new : List UInt8) :
    m.patch address expected new =
      match (m.query address).1 with
      | .error e => ⟨.error e, (m.query address).2, []⟩
      | .ok region =>
        match region.covers address (patchLength expected new) with
        | .error kind => ⟨.error (.overflow kind), (m.query address).2, []⟩
        | .ok false =>
          ⟨.error (.unavailable address (patchLength expected new)), (m.query address).2, []⟩
        | .ok true =>
          let granted := (m.query address).2.protect address region.protection.whilePatching
          match granted.1 with
          | .error e => ⟨.error e, granted.2, []⟩
          | .ok old => granted.2.patchWritable address expected new old := by
  unfold patch
  rcases m.query address with ⟨_ | region, m₀⟩
  · rfl
  · dsimp only
    rcases region.covers address (patchLength expected new) with kind | _ | _
    · rfl
    · rfl
    · rcases m₀.protect address region.protection.whilePatching with ⟨_ | old, m₁⟩ <;> rfl

/-- The memory `m₁` in which a patch may write: the range `r` that covers its bytes
has been granted write access, and nothing else has been done. -/
structure Granted (m : Memory) (address : UInt32) (length : Nat) (r : Mapping) (m₁ : Memory) :
    Prop where
  range : m.mappingAt? address = some r
  covers : r.region.covers address length = .ok true
  space : m₁.space = (m.modifyMapping r.base (Mapping.guarded r.protection.whilePatching)).space
  writes : m₁.writes = m.writes
  protects : m.Spends m₁ .protect 1
  flushes : m.Spends m₁ .flush 0

theorem writes_protect (m : Memory) (address : UInt32) (protection : Protection) :
    (m.protect address protection).2.writes = m.writes := by
  unfold protect
  split
  · rfl
  · unfold protectedAt
    split <;> rfl

theorem patch_opens (m : Memory) (address : UInt32) (expected : Option (List UInt8))
    (new : List UInt8) :
    ((∃ e, (m.patch address expected new).result = .error e) ∧
      (m.patch address expected new).memory.space = m.space ∧
      (m.patch address expected new).memory.writes = m.writes) ∨
    ∃ r m₁, m.Granted address (patchLength expected new) r m₁ ∧
      m.patch address expected new = m₁.patchWritable address expected new r.protection := by
  rw [patch_eq]
  rcases query_cases m address with ⟨e, hq⟩ | ⟨r, hr, hq⟩
  · simp only [hq]
    exact Or.inl ⟨⟨e, rfl⟩, rfl, rfl⟩
  rcases hcov : r.region.covers address (patchLength expected new) with kind | _ | _
  case error =>
    simp only [hq, hcov]
    exact Or.inl ⟨⟨_, rfl⟩, rfl, rfl⟩
  case ok.false =>
    simp only [hq, hcov]
    exact Or.inl ⟨⟨_, rfl⟩, rfl, rfl⟩
  simp only [hq, hcov]
  have hwrites := writes_protect (m.query address).2 address r.region.protection.whilePatching
  rcases protect_cases (m.query address).2 address r.region.protection.whilePatching with
    ⟨e, hp, hs⟩ | ⟨r', hr', hp, hs⟩
  · simp only [hp]
    exact Or.inl ⟨⟨e, rfl⟩, hs, hwrites⟩
  · obtain rfl : r = r' := Option.some.inj (hr.symm.trans hr')
    simp only [hp]
    refine Or.inr ⟨r, _, ?_, rfl⟩
    have hspends := fun access => (spends_query m address access).trans
      (spends_protect (m.query address).2 address r.region.protection.whilePatching access)
    exact ⟨hr, hcov, hs, hwrites, hspends .protect, hspends .flush⟩

/-- How a patch leaves the range that it is made in: with a protection that is
the old one or the one granted meanwhile, and with the new bytes or not. -/
inductive Touched (m : Memory) (address : UInt32) (expected : Option (List UInt8))
    (new : List UInt8) (r : Mapping) (o : Outcome Unit) : Prop where
  | spared (p : Protection) (granted : p = r.protection ∨ p = r.protection.whilePatching)
      (failed : ∃ e, o.result = .error e)
      (space : o.memory.space = (m.modifyMapping r.base (Mapping.guarded p)).space)
  | written (p : Protection) (granted : p = r.protection ∨ p = r.protection.whilePatching)
      (fits : (address - r.base).toNat + new.length ≤ r.size)
      (found : ∀ old, expected = some old → m.Holds address old)
      (space : o.memory.space = (m.modifyMapping r.base fun x =>
        (x.written (address - r.base).toNat new).guarded p).space)

theorem protection_of_granted {r : Mapping} {address : UInt32} {length : Nat} {p : Protection}
    (hcov : r.region.covers address length = .ok true)
    (hp : p = r.protection ∨ p = r.protection.whilePatching) : p ≠ .noAccess := by
  rcases hp with rfl | rfl
  · exact (Region.covers_eq_ok_true hcov).1
  · intro h
    have hw := Protection.isWritable_whilePatching r.protection
    rw [h] at hw
    cases hw

section Granted
variable {m m₁ : Memory} {address : UInt32} {expected : Option (List UInt8)} {new : List UInt8}
  {r : Mapping}

theorem mappingAt?_granted (hr : m.mappingAt? address = some r)
    (hs : m₁.space =
      (m.modifyMapping r.base (Mapping.guarded r.protection.whilePatching)).space) :
    m₁.mappingAt? address = some (r.guarded r.protection.whilePatching) := by
  rw [mappingAt?_eq_of_space_eq hs]
  exact mappingAt?_modifyMapping_self (Mapping.inPlace_guarded _) hr

theorem holds_of_granted (hr : m.mappingAt? address = some r) (hp : r.protection ≠ .noAccess)
    (hs : m₁.space =
      (m.modifyMapping r.base (Mapping.guarded r.protection.whilePatching)).space)
    {old : List UInt8} (h : m₁.Holds address old) : m.Holds address old := by
  obtain ⟨x, hx, -, hlen, hslice⟩ := holds_iff.mp h
  obtain rfl := Option.some.inj ((mappingAt?_granted hr hs).symm.trans hx)
  exact holds_iff.mpr ⟨r, hr, hp, hlen, hslice⟩

theorem patchWritable_cases (hr : m.mappingAt? address = some r) (hp : r.protection ≠ .noAccess)
    (hs : m₁.space =
      (m.modifyMapping r.base (Mapping.guarded r.protection.whilePatching)).space) :
    Touched m address expected new r
      (m₁.patchWritable address expected new r.protection) := by
  have hr₁ := mappingAt?_granted hr hs
  have hspace := space_patchWritable m₁ address expected new r.protection
  rcases compareAndWrite_cases m₁ address expected new with
    ⟨e, he, hs₂⟩ | ⟨r₂, hr₂, -, hfound, hfit, hs₂⟩
  · have hfail := result_patchWritable_of_error r.protection he
    have hr₂ := (mappingAt?_eq_of_space_eq hs₂ address).trans hr₁
    rcases restore_cases _ address r.protection hr₂ with h | h
    · exact .spared _ (Or.inr rfl) ⟨e, hfail⟩ (hspace.trans (h.trans (hs₂.trans hs)))
    · have hback := space_eq_of_modify_modify (Mapping.inPlace_guarded _) (hs₂.trans hs) h
      exact .spared _ (Or.inl rfl) ⟨e, hfail⟩ (hspace.trans hback)
  · obtain rfl := Option.some.inj (hr₁.symm.trans hr₂)
    have hheld := fun old ho => holds_of_granted hr hp hs (hfound old ho)
    have hboth := space_eq_of_modify_modify (Mapping.inPlace_guarded _) hs hs₂
    have hs₃ : (m₁.compareAndWrite address expected new).2.space =
        (m.modifyMapping r.base fun x =>
          (x.written (address - r.base).toNat new).guarded r.protection.whilePatching).space :=
      hboth
    have hr₃ := (mappingAt?_eq_of_space_eq hs₃ address).trans
      (mappingAt?_modifyMapping_self (Mapping.inPlace_patched _ _ _) hr)
    rcases restore_cases _ address r.protection hr₃ with h | h
    · exact .written _ (Or.inr rfl) hfit hheld (hspace.trans (h.trans hs₃))
    · have hback := space_eq_of_modify_modify (Mapping.inPlace_patched _ _ _) hs₃ h
      exact .written _ (Or.inl rfl) hfit hheld (hspace.trans hback)

end Granted

/-- A patch does nothing and fails, or it touches the accessible range that the
address belongs to. -/
theorem patch_cases (m : Memory) (address : UInt32) (expected : Option (List UInt8))
    (new : List UInt8) :
    ((∃ e, (m.patch address expected new).result = .error e) ∧
      (m.patch address expected new).memory.space = m.space) ∨
    ∃ r, m.mappingAt? address = some r ∧
      r.region.covers address (patchLength expected new) = .ok true ∧
      Touched m address expected new r (m.patch address expected new) := by
  rcases patch_opens m address expected new with ⟨he, hs, -⟩ | ⟨r, m₁, hgranted, hpatch⟩
  · exact Or.inl ⟨he, hs⟩
  · have hp := (Region.covers_eq_ok_true hgranted.covers).1
    refine Or.inr ⟨r, hgranted.range, hgranted.covers, ?_⟩
    rw [hpatch]
    exact patchWritable_cases hgranted.range hp hgranted.space

/-! ## What a patch spends -/

section Spent
variable (m : Memory) (address : UInt32) (expected : Option (List UInt8)) (new : List UInt8)

theorem spends_compareAndWrite (access : Access) :
    ∃ count, m.Spends (m.compareAndWrite address expected new).2 access count ∧
      (access ≠ .read → access ≠ .write → count = 0) := by
  have hread := fun size => spends_readBytes m address size access
  have hwrite := fun m' : Memory => spends_write m' address new access
  have hnone : access ≠ .read → (if access = .read then 1 else 0) = 0 := fun h => if_neg h
  have hnone' : access ≠ .write → (if access = .write then 1 else 0) = 0 := fun h => if_neg h
  cases expected with
  | none => exact ⟨_, hwrite m, fun _ => hnone'⟩
  | some old =>
      simp only [compareAndWrite]
      split
      · exact ⟨_, hread old.length, fun h _ => hnone h⟩
      · split
        · refine ⟨_, (hread old.length).trans (hwrite _), fun h h' => ?_⟩
          rw [hnone h, hnone' h']
        · exact ⟨_, hread old.length, fun h _ => hnone h⟩

theorem leads_patchWritable (old : Protection) :
    m.Leads (m.patchWritable address expected new old).memory := by
  have hrestored : m.Leads ((m.compareAndWrite address expected new).2.protect address old).2 := by
    intro access
    obtain ⟨count, hcount, -⟩ := spends_compareAndWrite m address expected new access
    exact ⟨_, hcount.trans (spends_protect _ address old access)⟩
  simp only [patchWritable]
  cases (m.compareAndWrite address expected new).1 with
  | error e => exact hrestored
  | ok u =>
      dsimp only
      split
      · exact hrestored.trans fun access => ⟨_, spends_flush _ address access⟩
      · exact hrestored

theorem leads_patch : m.Leads (m.patch address expected new).memory := by
  have hquery : m.Leads (m.query address).2 := fun access => ⟨_, spends_query m address access⟩
  rw [patch_eq]
  cases (m.query address).1 with
  | error e => exact hquery
  | ok region =>
      dsimp only
      rcases region.covers address (patchLength expected new) with kind | _ | _
      · exact hquery
      · exact hquery
      · have hgranted := hquery.trans fun access =>
          ⟨_, spends_protect _ address region.protection.whilePatching access⟩
        dsimp only
        split
        · exact hgranted
        · exact hgranted.trans (leads_patchWritable _ address expected new _)

end Spent

/-! ## What a patch keeps -/

section Kept
variable (m : Memory) (address : UInt32) (expected : Option (List UInt8)) (new : List UInt8)

theorem space_patch_cases :
    (m.patch address expected new).memory.space = m.space ∨
      ∃ r f, m.mappingAt? address = some r ∧ Mapping.InPlace f ∧
        (m.patch address expected new).memory.space = (m.modifyMapping r.base f).space := by
  rcases patch_cases m address expected new with ⟨-, h⟩ | ⟨r, hr, -, h⟩
  · exact Or.inl h
  · rcases h with ⟨p, _, _, hs⟩ | ⟨p, _, _, _, hs⟩
    · exact Or.inr ⟨r, _, hr, Mapping.inPlace_guarded p, hs⟩
    · exact Or.inr ⟨r, _, hr, Mapping.inPlace_patched _ _ p, hs⟩

theorem surroundings_patch :
    (m.patch address expected new).memory.surroundings = m.surroundings := by
  rcases space_patch_cases m address expected new with h | ⟨r, f, -, -, h⟩
  · exact surroundings_eq_of_space_eq h
  · exact surroundings_eq_of_space_eq (m := m.modifyMapping r.base f) h

theorem separate_patch :
    (m.patch address expected new).memory.Separate ↔ m.Separate := by
  rcases space_patch_cases m address expected new with h | ⟨_, _, _, hf, h⟩
  · exact separate_iff_of_space_eq h
  · exact (separate_iff_of_space_eq h).trans (separate_modifyMapping hf)

theorem baseAt?_patch (other : UInt32) :
    (m.patch address expected new).memory.baseAt? other = m.baseAt? other := by
  unfold baseAt?
  rcases space_patch_cases m address expected new with h | ⟨r, f, _, hf, h⟩
  · rw [mappingAt?_eq_of_space_eq h]
  · rw [mappingAt?_eq_of_space_eq h, mappingAt?_modifyMapping hf, Option.map_map]
    exact congrArg (Option.map · _) (funext (hf.ite r.base).base)

theorem regionAt_patch {other : UInt32} (hne : m.baseAt? other ≠ m.baseAt? address) :
    (m.patch address expected new).memory.regionAt other = m.regionAt other := by
  rcases space_patch_cases m address expected new with h | ⟨r, f, hr, hf, h⟩
  · exact regionAt_eq_of_space_eq h other
  · rw [regionAt_eq_of_space_eq h, regionAt, regionAt]
    cases hx : m.mappingAt? other with
    | none => rw [mappingAt?_modifyMapping hf, hx, Option.map_none]
    | some x =>
        have hxr : x.base ≠ r.base := by
          intro heq
          exact hne (by simp only [baseAt?, hx, hr, Option.map_some, heq])
        rw [mappingAt?_modifyMapping_of_ne hf hx hxr]

theorem keeps_patch :
    m.Keeps (fun i => i < address.toNat ∨ address.toNat + new.length ≤ i)
      (m.patch address expected new).memory := by
  rcases patch_cases m address expected new with ⟨-, hs⟩ | ⟨r, hr, hcov, ht⟩
  · exact keeps_of_space_eq hs
  · rcases ht with ⟨p, hp, -, hs⟩ | ⟨p, hp, -, -, hs⟩
    · refine (keeps_modifyMapping (Mapping.inPlace_guarded p) ?_ ?_).trans (keeps_of_space_eq hs)
      · exact fun _ _ => protection_of_granted hcov hp
      · exact fun _ _ _ _ => rfl
    · refine (keeps_modifyMapping (Mapping.inPlace_patched _ _ p) ?_ ?_).trans
        (keeps_of_space_eq hs)
      · exact fun _ _ => protection_of_granted hcov hp
      · intro x hx i hi
        have hlow := (mem_of_mappingAt? hr).2.1
        refine Mapping.byte_written_outside x ?_
        rw [Mapping.toNat_sub_base hlow]
        omega

/-- Unless a patch fails and keeps every byte, the new bytes are there afterwards. -/
theorem holds_or_keeps_patch :
    (m.patch address expected new).memory.Holds address new ∨
      (∃ e, (m.patch address expected new).result = .error e) ∧
        m.Keeps (fun _ => True) (m.patch address expected new).memory := by
  rcases patch_cases m address expected new with ⟨he, hs⟩ | ⟨r, hr, hcov, ht⟩
  · exact Or.inr ⟨he, keeps_of_space_eq hs⟩
  · rcases ht with ⟨p, hp, he, hs⟩ | ⟨p, hp, hfit, -, hs⟩
    · refine Or.inr ⟨he, (keeps_modifyMapping (Mapping.inPlace_guarded p) ?_ ?_).trans
        (keeps_of_space_eq hs)⟩
      · exact fun _ _ => protection_of_granted hcov hp
      · exact fun _ _ _ _ => rfl
    · refine Or.inl (holds_iff.mpr ⟨(r.written (address - r.base).toNat new).guarded p, ?_,
        protection_of_granted hcov hp, hfit, Mapping.slice_written_self r _ new⟩)
      rw [mappingAt?_eq_of_space_eq hs]
      exact mappingAt?_modifyMapping_self (Mapping.inPlace_patched _ _ p) hr

theorem holds_patch (h : (m.patch address expected new).result = .ok ()) :
    (m.patch address expected new).memory.Holds address new := by
  rcases holds_or_keeps_patch m address expected new with hnew | ⟨⟨e, he⟩, -⟩
  · exact hnew
  · rw [h] at he
    cases he

end Kept

/-! ## Many accesses -/

/-- `m'` comes from `m` by accesses that change no byte at a spared address and
map nothing. -/
structure Spares (spared : Nat → Prop) (m m' : Memory) : Prop where
  keeps : m.Keeps spared m'
  separate : m'.Separate ↔ m.Separate
  surroundings : m'.surroundings = m.surroundings
  baseAt? : ∀ address, m'.baseAt? address = m.baseAt? address

section Spares
variable {spared : Nat → Prop} {m m' m'' : Memory}

theorem spares_of_space_eq (h : m'.space = m.space) : m.Spares spared m' where
  keeps := keeps_of_space_eq h
  separate := separate_iff_of_space_eq h
  surroundings := surroundings_eq_of_space_eq h
  baseAt? := baseAt?_eq_of_space_eq h

theorem Spares.trans (h : m.Spares spared m') (h' : m'.Spares spared m'') :
    m.Spares spared m'' where
  keeps := h.keeps.trans h'.keeps
  separate := h'.separate.trans h.separate
  surroundings := h'.surroundings.trans h.surroundings
  baseAt? address := (h'.baseAt? address).trans (h.baseAt? address)

theorem Spares.mono {fewer : Nat → Prop} (h : m.Spares spared m')
    (hsub : ∀ i, fewer i → spared i) : m.Spares fewer m' :=
  { h with keeps := h.keeps.mono hsub }

theorem spares_patch (m : Memory) (address : UInt32) (expected : Option (List UInt8))
    (new : List UInt8) :
    m.Spares (fun i => i < address.toNat ∨ address.toNat + new.length ≤ i)
      (m.patch address expected new).memory where
  keeps := keeps_patch m address expected new
  separate := separate_patch m address expected new
  surroundings := surroundings_patch m address expected new
  baseAt? := baseAt?_patch m address expected new

theorem spares_protect (m : Memory) (address : UInt32) {protection : Protection}
    (h : protection ≠ .noAccess) : m.Spares (fun _ => True) (m.protect address protection).2 := by
  have hguard := Mapping.inPlace_guarded protection
  rcases protect_cases m address protection with ⟨_, _, hs⟩ | ⟨r, hr, _, hs⟩
  · exact spares_of_space_eq hs
  · suffices hchange : m.Spares (fun _ => True)
        (m.modifyMapping r.base (Mapping.guarded protection)) from
      hchange.trans (spares_of_space_eq hs)
    refine ⟨keeps_modifyMapping hguard (fun _ _ => h) (fun _ _ _ _ => rfl),
      separate_modifyMapping hguard, rfl, fun other => ?_⟩
    unfold Memory.baseAt?
    rw [mappingAt?_modifyMapping hguard, Option.map_map]
    exact congrArg (Option.map · _) (funext (hguard.ite r.base).base)

theorem Spares.holds (h : m.Spares spared m') {address : UInt32} {bytes : List UInt8}
    (hs : ∀ i < bytes.length, spared (address.toNat + i)) (hb : m.Holds address bytes) :
    m'.Holds address bytes :=
  h.keeps address bytes hs hb

end Spares

end CodePatch.Memory
