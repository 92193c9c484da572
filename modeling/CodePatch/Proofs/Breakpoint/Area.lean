/-
# The area of a batch

What lies where in the area that a batch of sites is installed in: the entry
stub of every size of arguments that a site drops, and behind the stubs a slot
for every site, in the order of the sites.  `Relocated` says what copying does
to one site, and `relocateAll_at` that it does so to each of many, with the
slots one behind the other.

A site whose bytes could not be read keeps an empty slot and is not entered
into the table, so what the table says of an address is always the slot of the
site there (`slot?_tableOf`).
-/
import CodePatch.Breakpoint.Stage
import CodePatch.Proofs.Breakpoint.MachineCode
import CodePatch.Proofs.Breakpoint.Table
import CodePatch.Proofs.Memory.Patch

namespace CodePatch

open MachineCode (stubLength)

namespace BreakpointStage

/-! ## Entry stubs -/

theorem mem_insertClear {clear other : UInt16} {clears : List UInt16} :
    other ∈ insertClear clear clears ↔ other = clear ∨ other ∈ clears := by
  induction clears with
  | nil => simp [insertClear]
  | cons first rest ih =>
      simp only [insertClear]
      split
      · exact List.mem_cons
      · split
        · rename_i h
          subst h
          simp
        · simp only [List.mem_cons, ih]
          exact or_left_comm

theorem mem_foldl_insertClear {site : Site} {sites : List Site} (clears : List UInt16)
    (h : site ∈ sites ∨ site.breakpoint.stackClear ∈ clears) :
    site.breakpoint.stackClear ∈
      sites.foldl (fun clears site => insertClear site.breakpoint.stackClear clears) clears := by
  induction sites generalizing clears with
  | nil => exact h.resolve_left List.not_mem_nil
  | cons first rest ih =>
      refine ih _ ?_
      rcases h with h | h
      · rcases List.mem_cons.mp h with rfl | h
        · exact Or.inr (mem_insertClear.mpr (Or.inl rfl))
        · exact Or.inl h
      · exact Or.inr (mem_insertClear.mpr (Or.inr h))

theorem mem_stackClears {site : Site} {sites : List Site} (h : site ∈ sites) :
    site.breakpoint.stackClear ∈ stackClears sites :=
  mem_foldl_insertClear [] (Or.inl h)

theorem length_stubBytes (table dispatcher base : UInt32) (clears : List UInt16) :
    (stubBytes table dispatcher base clears).length = clears.length * stubLength := by
  induction clears generalizing base with
  | nil => simp [stubBytes]
  | cons clear rest ih =>
      rw [stubBytes, List.length_append, ih, MachineCode.length_entryStub, List.length_cons,
        Nat.succ_mul, Nat.add_comm]

theorem stubBytes_append (table dispatcher base : UInt32) (front back : List UInt16) :
    stubBytes table dispatcher base (front ++ back) =
      stubBytes table dispatcher base front ++
        stubBytes table dispatcher (base + UInt32.ofNat (front.length * stubLength)) back := by
  induction front generalizing base with
  | nil => simp [stubBytes]
  | cons clear rest ih =>
      have hnext : base + UInt32.ofNat stubLength + UInt32.ofNat (rest.length * stubLength) =
          base + UInt32.ofNat ((rest.length + 1) * stubLength) := by
        rw [UInt32.add_assoc, ← UInt32.ofNat_add, Nat.succ_mul, Nat.add_comm stubLength]
      simp only [List.cons_append, stubBytes, ih, List.append_assoc, List.length_cons, hnext]

theorem stubBytes_at (table dispatcher base : UInt32) {clears : List UInt16} {clear : UInt16}
    (h : clear ∈ clears) : ∃ front back,
      stubBytes table dispatcher base clears =
        front ++ MachineCode.entryStub (base + UInt32.ofNat (clears.idxOf clear * stubLength))
          table dispatcher clear ++ back ∧
      front.length = clears.idxOf clear * stubLength := by
  obtain ⟨before, behind, hsplit, hlen⟩ : ∃ before behind,
      clears = before ++ clear :: behind ∧ before.length = clears.idxOf clear := by
    have hidx := List.idxOf_lt_length_of_mem h
    have hcons := List.drop_eq_getElem_cons hidx
    rw [List.getElem_idxOf] at hcons
    refine ⟨clears.take (clears.idxOf clear), clears.drop (clears.idxOf clear + 1), ?_, ?_⟩
    · rw [← hcons, List.take_append_drop]
    · rw [List.length_take, Nat.min_eq_left (Nat.le_of_lt hidx)]
  rw [← hlen, hsplit, stubBytes_append, stubBytes]
  exact ⟨_, _, (List.append_assoc ..).symm, length_stubBytes ..⟩

/-! ## Slots -/

/-- What copying the bytes of the site with the given number leads to, in the
memory `m`: the site afterwards, and the bytes of its slot. -/
structure Relocated (m : Memory) (base : UInt32) (clears : List UInt16) (index : Nat)
    (site : Site) (site' : Site) (slot : List UInt8) : Prop where
  breakpoint : site'.breakpoint = site.breakpoint
  address : site'.address = site.address
  stub : site'.stub = stubAddress base clears site
  length : slot.length = slotLength
  /-- Either the bytes could not be read, or they are in the slot. -/
  outcome : (site'.state = site.state ∧ site'.slot = site.slot) ∨
    ∃ original, m.bytesAt site.address site.breakpoint.caveSize = .ok original ∧
      site'.slot = some (slotAddress base clears.length index) ∧
      slot = MachineCode.relocatedSlot original site.address
        (slotAddress base clears.length index)

section Relocation
variable {m : Memory} {base : UInt32} {clears : List UInt16}

theorem relocated_relocate (base : UInt32) (clears : List UInt16) {b : Bench}
    (hb : b.memory.space = m.space) (index : Nat) {site : Site}
    (hsize : site.breakpoint.caveSize ≤ Breakpoint.greatestCaveSize) :
    Relocated m base clears index site (relocate base clears b index site).1
        (relocate base clears b index site).2.1 ∧
      (relocate base clears b index site).2.2.memory.space = m.space := by
  simp only [relocate]
  rcases hread : b.memory.readBytes site.address site.breakpoint.caveSize with ⟨_ | original, after⟩
  all_goals
    have hafter : after.space = m.space := by
      have hspace := Memory.space_readBytes b.memory site.address site.breakpoint.caveSize
      rw [hread] at hspace
      exact hspace.trans hb
  · exact ⟨⟨rfl, rfl, rfl, MachineCode.length_padded (Nat.zero_le _), Or.inl ⟨rfl, rfl⟩⟩,
      hafter⟩
  · have hbytes : m.bytesAt site.address site.breakpoint.caveSize = .ok original := by
      have hok := Memory.bytesAt_of_readBytes (congrArg Prod.fst hread)
      rwa [Memory.bytesAt_eq_of_space_eq hb] at hok
    have hlen : original.length + callLength ≤ slotLength := by
      rw [Memory.length_of_bytesAt hbytes]
      have : Breakpoint.greatestCaveSize + callLength = slotLength := by decide
      omega
    exact ⟨⟨rfl, rfl, rfl, MachineCode.length_relocatedSlot _ _ hlen,
      Or.inr ⟨original, hbytes, rfl, rfl⟩⟩, hafter⟩

/-- Copying the bytes of many sites does to each of them what it does to one,
and puts the slots one behind the other. -/
theorem relocateAll_at (base : UInt32) (clears : List UInt16) {b : Bench}
    (hb : b.memory.space = m.space) (index : Nat) {sites : List Site}
    (hsize : ∀ site ∈ sites, site.breakpoint.caveSize ≤ Breakpoint.greatestCaveSize) :
    (relocateAll base clears b index sites).1.length = sites.length ∧
    (relocateAll base clears b index sites).2.1.length = sites.length * slotLength ∧
    (relocateAll base clears b index sites).2.2.memory.space = m.space ∧
    ∀ i site, sites[i]? = some site → ∃ site' front slot back,
      (relocateAll base clears b index sites).1[i]? = some site' ∧
      (relocateAll base clears b index sites).2.1 = front ++ slot ++ back ∧
      front.length = i * slotLength ∧
      Relocated m base clears (index + i) site site' slot := by
  induction sites generalizing b index with
  | nil =>
      refine ⟨rfl, rfl, hb, fun i site h => ?_⟩
      rw [List.getElem?_nil] at h
      cases h
  | cons first rest ih =>
      obtain ⟨hfirst, hb₁⟩ := relocated_relocate base clears hb index
        (hsize first List.mem_cons_self)
      obtain ⟨hcount, hlen, hb₂, hrest⟩ := ih hb₁ (index + 1)
        (fun site h => hsize site (List.mem_cons_of_mem _ h))
      simp only [relocateAll]
      refine ⟨congrArg Nat.succ hcount, ?_, hb₂, fun i site h => ?_⟩
      · rw [List.length_append, hfirst.length, hlen, List.length_cons, Nat.succ_mul, Nat.add_comm]
      · cases i with
        | zero =>
            obtain rfl := Option.some.inj h
            exact ⟨_, [], _, _, rfl, rfl, (Nat.zero_mul _).symm, hfirst⟩
        | succ i =>
            obtain ⟨site', front, slot, back, hsite', hbytes, hfront, hrel⟩ := hrest i site h
            refine ⟨site', (relocate base clears b index first).2.1 ++ front, slot, back, hsite',
              ?_, ?_, ?_⟩
            · rw [hbytes]
              simp only [List.append_assoc]
            · rw [List.length_append, hfirst.length, hfront, Nat.succ_mul, Nat.add_comm]
            · rwa [show index + (i + 1) = index + 1 + i by omega]

end Relocation

/-! ## The table -/

@[simp] theorem slot?_arm (t : BreakpointTable) (address other : UInt32) :
    (t.arm address).2.slot? other = t.slot? other := by
  rw [BreakpointTable.slot?, BreakpointTable.entryAt?_arm, Option.map_map]
  refine congrArg (Option.map · _) (funext fun e => ?_)
  simp only [Function.comp_apply, BreakpointTable.armedAt]
  split <;> rfl

theorem entryOf?_eq_some {site : Site} {entry : TableEntry} (h : entryOf? site = some entry) :
    entry.address = site.address ∧ site.slot = some entry.slot ∧ entry.armed = false := by
  obtain ⟨slot, hslot, rfl⟩ := Option.map_eq_some_iff.mp h
  exact ⟨rfl, hslot, rfl⟩

theorem entryAt?_tableOf_eq_none (symbols : Symbols) (options : Options) {sites : List Site}
    {address : UInt32} (h : ∀ site ∈ sites, site.slot.isSome = true → site.address ≠ address) :
    (tableOf symbols options sites).entryAt? address = none := by
  refine Option.not_isSome_iff_eq_none.mp fun hfound => ?_
  obtain ⟨entry, hentry, haddress⟩ :=
    (BreakpointTable.isSome_entryAt?_ofEntries symbols options).mp hfound
  obtain ⟨site, hsite, hsome⟩ := List.mem_filterMap.mp hentry
  obtain ⟨hplace, hslot, -⟩ := entryOf?_eq_some hsome
  exact h site hsite (Option.isSome_iff_exists.mpr ⟨_, hslot⟩) (hplace.symm.trans haddress)

theorem entryAt?_tableOf (symbols : Symbols) (options : Options) {sites : List Site} {site : Site}
    (hsites : sites.Pairwise (·.address ≠ ·.address)) (h : site ∈ sites) :
    (tableOf symbols options sites).entryAt? site.address = entryOf? site := by
  have hentries : (sites.filterMap entryOf?).Pairwise (·.address ≠ ·.address) := by
    refine List.pairwise_filterMap.mpr (hsites.imp fun hne e he e' he' => ?_)
    rwa [(entryOf?_eq_some he).1, (entryOf?_eq_some he').1]
  cases hentry : entryOf? site with
  | some entry =>
      rw [tableOf, BreakpointTable.entryAt?_ofEntries_iff symbols options hentries]
      exact ⟨List.mem_filterMap.mpr ⟨site, h, hentry⟩, (entryOf?_eq_some hentry).1⟩
  | none =>
      refine entryAt?_tableOf_eq_none symbols options fun other hother hslot haddress => ?_
      obtain rfl := List.inj_on_of_nodup_map (List.pairwise_map.mpr hsites) hother h haddress
      rw [Option.map_eq_none_iff.mp hentry] at hslot
      cases hslot

theorem slot?_tableOf (symbols : Symbols) (options : Options) {sites : List Site} {site : Site}
    (hsites : sites.Pairwise (·.address ≠ ·.address)) (h : site ∈ sites) :
    (tableOf symbols options sites).slot? site.address = site.slot := by
  rw [BreakpointTable.slot?, entryAt?_tableOf symbols options hsites h, entryOf?, Option.map_map]
  exact Option.map_id'

/-! ## Writing the area -/

section Writing
variable (b : Bench) (base : UInt32) (image : List UInt8)

theorem writeArea_cases :
    ((∃ e, (writeArea b base image).1 = .error e) ∧
      (writeArea b base image).2.memory = (b.memory.patch base none image).memory) ∨
    ((writeArea b base image).2.memory.space =
        ((b.memory.patch base none image).memory.protect base .executeRead).2.space ∧
      ((writeArea b base image).1 = .ok () → (b.memory.patch base none image).result = .ok () ∧
        ∃ p, ((b.memory.patch base none image).memory.protect base .executeRead).1 = .ok p)) := by
  simp only [writeArea, Bench.patch]
  cases (b.memory.patch base none image).result with
  | error e => exact Or.inl ⟨⟨e, rfl⟩, rfl⟩
  | ok u =>
      simp only [Bench.memory_say, Bench.memory_withMemory]
      rcases (b.memory.patch base none image).memory.protect base .executeRead with ⟨_ | p, m⟩
      · exact Or.inr ⟨rfl, fun h => nomatch h⟩
      · exact Or.inr ⟨rfl, fun _ => ⟨trivial, p, rfl⟩⟩

theorem spares_writeArea :
    b.memory.Spares (fun i => i < base.toNat ∨ base.toNat + image.length ≤ i)
      (writeArea b base image).2.memory := by
  have hpatch := Memory.spares_patch b.memory base none image
  rcases writeArea_cases b base image with ⟨-, hm⟩ | ⟨hs, -⟩
  · rw [hm]
    exact hpatch
  · have hprotect := Memory.spares_protect (b.memory.patch base none image).memory base
      (show Protection.executeRead ≠ .noAccess by decide)
    exact (hpatch.trans (hprotect.mono fun _ _ => trivial)).trans (Memory.spares_of_space_eq hs)

theorem holds_writeArea (h : (writeArea b base image).1 = .ok ()) :
    (writeArea b base image).2.memory.Holds base image := by
  rcases writeArea_cases b base image with ⟨⟨e, he⟩, -⟩ | ⟨hs, hok⟩
  · rw [h] at he
    cases he
  · have hpatch := Memory.holds_patch _ _ _ _ (hok h).1
    have hprotect := Memory.spares_protect (b.memory.patch base none image).memory base
      (show Protection.executeRead ≠ .noAccess by decide)
    exact (hprotect.trans (Memory.spares_of_space_eq hs)).holds (fun _ _ => trivial) hpatch

theorem regionAt_writeArea (h : (writeArea b base image).1 = .ok ()) {r : Mapping}
    (hr : b.memory.mappingAt? base = some r) :
    (writeArea b base image).2.memory.regionAt base = .ok ⟨r.base, r.size, .executeRead⟩ := by
  rcases writeArea_cases b base image with ⟨⟨e, he⟩, -⟩ | ⟨hs, hok⟩
  · rw [h] at he
    cases he
  obtain ⟨x, hx, hbase, hsize⟩ : ∃ x, (b.memory.patch base none image).memory.mappingAt? base =
      some x ∧ x.base = r.base ∧ x.size = r.size := by
    rcases Memory.space_patch_cases b.memory base none image with hp | ⟨x, f, hx, hf, hp⟩
    · exact ⟨r, (Memory.mappingAt?_eq_of_space_eq hp base).trans hr, rfl, rfl⟩
    · obtain rfl := Option.some.inj (hr.symm.trans hx)
      rw [Memory.mappingAt?_eq_of_space_eq hp]
      exact ⟨f r, Memory.mappingAt?_modifyMapping_self hf hx, hf.base r, hf.size r⟩
  obtain ⟨-, p, hp⟩ := hok h
  rcases Memory.protect_cases (b.memory.patch base none image).memory base .executeRead with
    ⟨e, he, -⟩ | ⟨y, hy, -, hspace⟩
  · rw [hp] at he
    cases he
  · obtain rfl := Option.some.inj (hx.symm.trans hy)
    have hfound := Memory.mappingAt?_modifyMapping_self (Mapping.inPlace_guarded .executeRead) hx
    rw [Memory.regionAt_eq_of_space_eq (hs.trans hspace), Memory.regionAt, hfound]
    show Except.ok (Region.mk x.base x.size .executeRead) = _
    rw [hbase, hsize]

end Writing

end BreakpointStage
end CodePatch
