/-
# The map of a memory

Which range an address belongs to, and what mapping and changing ranges does
to that.  `Memory.mappingAt?` takes the range with the greatest base at or
below the address, whatever lies over it
(`mappingAt?_eq_some_iff_of_ordered`); only in a memory whose ranges are
`Separate` is that the range the address lies in (`mappingAt?_eq_some_iff`).

`Separate` is two things in one: the ranges are listed by increasing base
(`Ordered`), which every memory made by `Memory.map` satisfies, and none of
them reaches into the next.  `separate_map` says that mapping a range apart
from the others keeps both.

Nothing here speaks of faults or of the count of writes: `Memory.space` is the
memory without them, and two memories with the same space have the same
ranges, bytes, exports and addresses.
-/
import Mathlib
import CodePatch.Memory.Basic

namespace CodePatch

namespace Mapping

/-- The range and the `length` addresses from `start` on end before each other. -/
def Apart (r : Mapping) (start length : Nat) : Prop :=
  r.base.toNat + r.size ≤ start ∨ start + length ≤ r.base.toNat

instance (r : Mapping) (start length : Nat) : Decidable (r.Apart start length) :=
  inferInstanceAs (Decidable (_ ∨ _))

/-- The range begins before the other one and ends before it too. -/
def Before (r s : Mapping) : Prop :=
  r.base.toNat < s.base.toNat ∧ r.base.toNat + r.size ≤ s.base.toNat

instance (r s : Mapping) : Decidable (r.Before s) :=
  inferInstanceAs (Decidable (_ ∧ _))

/-- The address lies in the range. -/
def Contains (r : Mapping) (address : UInt32) : Prop :=
  r.base.toNat ≤ address.toNat ∧ address.toNat < r.base.toNat + r.size

/-- A change of a range that leaves its base and its size alone. -/
structure InPlace (f : Mapping → Mapping) : Prop where
  base : ∀ r, (f r).base = r.base
  size : ∀ r, (f r).size = r.size

theorem InPlace.ite {f : Mapping → Mapping} (hf : InPlace f) (base : UInt32) :
    InPlace fun r => if r.base = base then f r else r := by
  constructor <;> intro r <;> split
  · exact hf.base r
  · rfl
  · exact hf.size r
  · rfl

theorem not_contains_of_before {r s : Mapping} {address : UInt32} (h : r.Before s)
    (hr : r.Contains address) : ¬ s.base ≤ address := by
  rw [UInt32.le_iff_toNat_le]
  have := h.2
  have := hr.2
  omega

theorem before_of_apart {r s : Mapping} (hb : r.base.toNat < s.base.toNat)
    (h : r.Apart s.base.toNat s.size) : r.Before s := by
  rcases h with h | h
  · exact ⟨hb, h⟩
  · omega

theorem before_of_apart' {r s : Mapping} (hb : r.base.toNat < s.base.toNat)
    (h : s.Apart r.base.toNat r.size) : r.Before s := by
  rcases h with h | h
  · omega
  · exact ⟨hb, h⟩

theorem toNat_sub_base {r : Mapping} {address : UInt32} (h : r.base.toNat ≤ address.toNat) :
    (address - r.base).toNat = address.toNat - r.base.toNat :=
  UInt32.toNat_sub_of_le _ _ (UInt32.le_iff_toNat_le.mpr h)

end Mapping

namespace Memory

/-- The ranges, listed by increasing base, each end before the next begins. -/
def Separate (m : Memory) : Prop :=
  m.mappings.Pairwise Mapping.Before

instance (m : Memory) : Decidable m.Separate :=
  inferInstanceAs (Decidable (List.Pairwise _ _))

/-- The ranges, listed by increasing base, wherever they end. -/
def Ordered (m : Memory) : Prop :=
  m.mappings.Pairwise fun r s => r.base < s.base

theorem Separate.ordered {m : Memory} (h : m.Separate) : m.Ordered :=
  List.Pairwise.imp (fun hb => UInt32.lt_iff_toNat_lt.mpr hb.1) h

/-- The memory without its fault plan and its count of writes. -/
def space (m : Memory) : Memory :=
  { m with faults := {}, writes := 0 }

/-! ## The range of an address -/

theorem mem_of_mappingAt? {m : Memory} {address : UInt32} {r : Mapping}
    (h : m.mappingAt? address = some r) : r ∈ m.mappings ∧ r.Contains address := by
  obtain ⟨hlast, hreach⟩ := Option.filter_eq_some_iff.mp h
  have hmem := List.mem_of_getLast? hlast
  obtain ⟨hr, hle⟩ := List.mem_filter.mp hmem
  refine ⟨hr, UInt32.le_iff_toNat_le.mp (of_decide_eq_true hle), ?_⟩
  exact of_decide_eq_true hreach

/-- Where ranges are listed by their bases, an address belongs to the range with the greatest
base at or below it, if it lies in that one. -/
theorem mappingAt?_eq_some_iff_of_ordered {m : Memory} (hm : m.Ordered) {address : UInt32}
    {r : Mapping} :
    m.mappingAt? address = some r ↔
      r ∈ m.mappings ∧ r.Contains address ∧
        ∀ s ∈ m.mappings, s.base ≤ address → s.base ≤ r.base := by
  have hfiltered : (m.mappings.filter (·.base ≤ address)).Pairwise fun r s => r.base < s.base :=
    List.Pairwise.filter _ hm
  constructor
  · intro h
    obtain ⟨hr, hin⟩ := mem_of_mappingAt? h
    refine ⟨hr, hin, fun s hs hle => ?_⟩
    obtain ⟨front, hfront⟩ := List.getLast?_eq_some_iff.mp (Option.filter_eq_some_iff.mp h).1
    have hmem : s ∈ m.mappings.filter (·.base ≤ address) :=
      List.mem_filter.mpr ⟨hs, decide_eq_true hle⟩
    rw [hfront] at hmem hfiltered
    rcases List.mem_append.mp hmem with hmem | hmem
    · have hlt := (List.pairwise_append.mp hfiltered).2.2 s hmem r List.mem_cons_self
      exact UInt32.le_of_lt hlt
    · rw [List.mem_singleton.mp hmem]
      exact UInt32.le_refl _
  · rintro ⟨hr, hin, hnearest⟩
    have hmem : r ∈ m.mappings.filter (·.base ≤ address) :=
      List.mem_filter.mpr ⟨hr, decide_eq_true (UInt32.le_iff_toNat_le.mpr hin.1)⟩
    obtain ⟨last, hlast⟩ : ∃ last, (m.mappings.filter (·.base ≤ address)).getLast? = some last :=
      Option.ne_none_iff_exists'.mp fun hnone =>
        List.ne_nil_of_mem hmem (List.getLast?_eq_none_iff.mp hnone)
    obtain ⟨front, hfront⟩ := List.getLast?_eq_some_iff.mp hlast
    -- a range before the last one has a lower base, so `r` is the last one itself
    obtain rfl : r = last := by
      have hcandidate : last ∈ m.mappings.filter (·.base ≤ address) :=
        List.mem_of_getLast? hlast
      obtain ⟨hlast, hle⟩ := List.mem_filter.mp hcandidate
      rw [hfront] at hmem hfiltered
      rcases List.mem_append.mp hmem with hmem | hmem
      · have hlt := (List.pairwise_append.mp hfiltered).2.2 r hmem last List.mem_cons_self
        have hback := hnearest last hlast (of_decide_eq_true hle)
        exact absurd hlt (UInt32.not_lt.mpr hback)
      · exact List.mem_singleton.mp hmem
    exact Option.filter_eq_some_iff.mpr ⟨hlast, decide_eq_true hin.2⟩

theorem eq_of_separate {m : Memory} (hm : m.Separate) {r s : Mapping} (hr : r ∈ m.mappings)
    (hs : s ∈ m.mappings) (h : ¬ r.Before s) (h' : ¬ s.Before r) : r = s := by
  have hne : m.mappings.Pairwise fun a b => a.Before b ∨ b.Before a :=
    List.Pairwise.imp Or.inl hm
  have : Std.Symm fun a b : Mapping => a.Before b ∨ b.Before a := ⟨fun _ _ => Or.symm⟩
  by_contra hdiffer
  rcases hne.forall hr hs hdiffer with hb | hb
  · exact h hb
  · exact h' hb

/-- In a separate memory an address belongs to the range that it lies in. -/
theorem mappingAt?_eq_some_iff {m : Memory} (hm : m.Separate) {address : UInt32} {r : Mapping} :
    m.mappingAt? address = some r ↔ r ∈ m.mappings ∧ r.Contains address := by
  rw [mappingAt?_eq_some_iff_of_ordered hm.ordered]
  refine ⟨fun ⟨hr, hin, _⟩ => ⟨hr, hin⟩, fun ⟨hr, hin⟩ => ⟨hr, hin, fun s hs hle => ?_⟩⟩
  by_contra hgreater
  -- a range with a greater base would begin behind the end of `r`, and so behind the address
  refine hgreater (eq_of_separate hm hs hr ?_ ?_ ▸ UInt32.le_refl _)
  · exact fun hb => hgreater (UInt32.le_iff_toNat_le.mpr (Nat.le_of_lt hb.1))
  · exact fun hb => Mapping.not_contains_of_before hb hin hle

theorem mappingAt?_of_contains {m : Memory} (hm : m.Separate) {address other : UInt32}
    {r : Mapping} (h : m.mappingAt? address = some r) (hin : r.Contains other) :
    m.mappingAt? other = some r :=
  (mappingAt?_eq_some_iff hm).mpr ⟨(mem_of_mappingAt? h).1, hin⟩

/-! ## Mapping a range -/

theorem mem_insertMapping {new r : Mapping} {mappings : List Mapping}
    (h : r ∈ insertMapping new mappings) : r = new ∨ r ∈ mappings := by
  induction mappings with
  | nil => exact Or.inl (List.mem_singleton.mp h)
  | cons old rest ih =>
      simp only [insertMapping] at h
      split at h
      · exact List.mem_cons.mp h
      · split at h
        · exact (List.mem_cons.mp h).imp_right (List.mem_cons_of_mem _)
        · rcases List.mem_cons.mp h with h | h
          · exact Or.inr (h ▸ List.mem_cons_self)
          · exact (ih h).imp_right (List.mem_cons_of_mem _)

theorem mem_insertMapping_self (new : Mapping) (mappings : List Mapping) :
    new ∈ insertMapping new mappings := by
  induction mappings with
  | nil => exact List.mem_cons_self
  | cons old rest ih =>
      simp only [insertMapping]
      split
      · exact List.mem_cons_self
      · split
        · exact List.mem_cons_self
        · exact List.mem_cons_of_mem _ ih

/-- Only a range with the same base makes room for a new one. -/
theorem mem_insertMapping_of_mem {new r : Mapping} {mappings : List Mapping}
    (hr : r ∈ mappings) (hne : new.base ≠ r.base) : r ∈ insertMapping new mappings := by
  induction mappings with
  | nil => exact absurd hr List.not_mem_nil
  | cons old rest ih =>
      simp only [insertMapping]
      split
      · exact List.mem_cons_of_mem _ hr
      · split
        · rename_i heq
          rcases List.mem_cons.mp hr with rfl | hr
          · exact absurd heq hne
          · exact List.mem_cons_of_mem _ hr
        · rcases List.mem_cons.mp hr with rfl | hr
          · exact List.mem_cons_self
          · exact List.mem_cons_of_mem _ (ih hr)

/-- A relation that goes with the order of the bases survives mapping a range, if the new
range is related to those on either side of it. -/
theorem pairwise_insertMapping {R : Mapping → Mapping → Prop} {new : Mapping}
    {mappings : List Mapping} (hbase : ∀ r s, R r s → r.base < s.base)
    (hm : mappings.Pairwise R) (hbelow : ∀ r ∈ mappings, r.base < new.base → R r new)
    (habove : ∀ r ∈ mappings, new.base < r.base → R new r) :
    (insertMapping new mappings).Pairwise R := by
  induction mappings with
  | nil => exact List.pairwise_singleton ..
  | cons old rest ih =>
      obtain ⟨hold, hrest⟩ := List.pairwise_cons.mp hm
      have hfar : ∀ r ∈ rest, new.base ≤ old.base → R new r := fun r hr hle =>
        habove r (List.mem_cons_of_mem _ hr) (UInt32.lt_of_le_of_lt hle (hbase _ _ (hold r hr)))
      simp only [insertMapping]
      split
      · rename_i hlt
        refine List.pairwise_cons.mpr ⟨fun r hr => ?_, hm⟩
        rcases List.mem_cons.mp hr with rfl | hr
        · exact habove _ List.mem_cons_self hlt
        · exact hfar r hr (UInt32.le_of_lt hlt)
      · split
        · rename_i heq
          exact List.pairwise_cons.mpr ⟨fun r hr => hfar r hr (heq ▸ UInt32.le_refl _), hrest⟩
        · rename_i hlt hne
          have hgt : old.base < new.base :=
            UInt32.lt_of_le_of_ne (UInt32.not_lt.mp hlt) fun h => hne h.symm
          refine List.pairwise_cons.mpr ⟨fun r hr => ?_, ih hrest
            (fun r hr => hbelow r (List.mem_cons_of_mem _ hr))
            fun r hr => habove r (List.mem_cons_of_mem _ hr)⟩
          rcases mem_insertMapping hr with rfl | hr
          · exact hbelow _ List.mem_cons_self hgt
          · exact hold r hr

theorem ordered_map {m : Memory} (hm : m.Ordered) (new : Mapping) : (m.map new).Ordered :=
  pairwise_insertMapping (fun _ _ h => h) hm (fun _ _ h => h) fun _ _ h => h

theorem separate_map {m : Memory} {new : Mapping} (hm : m.Separate)
    (hnew : ∀ r ∈ m.mappings, r.Apart new.base.toNat new.size) : (m.map new).Separate := by
  refine pairwise_insertMapping (fun r s h => UInt32.lt_iff_toNat_lt.mpr h.1) hm ?_ ?_
  · exact fun r hr hlt => Mapping.before_of_apart (UInt32.lt_iff_toNat_lt.mp hlt) (hnew r hr)
  · exact fun r hr hlt => Mapping.before_of_apart' (UInt32.lt_iff_toNat_lt.mp hlt) (hnew r hr)

section Apart
variable {m : Memory} {new : Mapping}
  (hnew : ∀ r ∈ m.mappings, r.Apart new.base.toNat new.size)
include hnew

theorem mem_map_of_apart (hsize : 0 < new.size) {r : Mapping} (hr : r ∈ m.mappings)
    (hsome : 0 < r.size) : r ∈ (m.map new).mappings := by
  refine mem_insertMapping_of_mem hr fun heq => ?_
  have heq := congrArg UInt32.toNat heq
  rcases hnew r hr with h | h <;> omega

variable (hm : m.Ordered) {address : UInt32}
include hm

theorem mappingAt?_map_self (hin : new.Contains address) :
    (m.map new).mappingAt? address = some new := by
  refine (mappingAt?_eq_some_iff_of_ordered (ordered_map hm new)).mpr
    ⟨mem_insertMapping_self new _, hin, fun s hs hle => ?_⟩
  rcases mem_insertMapping hs with rfl | hs
  · exact UInt32.le_refl _
  · rw [UInt32.le_iff_toNat_le] at hle ⊢
    have := hin.2
    rcases hnew s hs with h | h <;> omega

theorem mappingAt?_map_outside (hsize : 0 < new.size) (hout : ¬ new.Contains address) :
    (m.map new).mappingAt? address = m.mappingAt? address := by
  refine Option.ext fun r => ?_
  rw [mappingAt?_eq_some_iff_of_ordered (ordered_map hm new),
    mappingAt?_eq_some_iff_of_ordered hm]
  constructor
  · rintro ⟨hr, hin, hnearest⟩
    have hold : r ∈ m.mappings :=
      (mem_insertMapping hr).resolve_left fun heq => hout (heq ▸ hin)
    refine ⟨hold, hin, fun s hs hle => ?_⟩
    -- a range that the new one replaces has the same base
    by_cases hbase : new.base = s.base
    · exact hbase ▸ hnearest new (mem_insertMapping_self new _) (hbase ▸ hle)
    · exact hnearest s (mem_insertMapping_of_mem hs hbase) hle
  · rintro ⟨hr, hin, hnearest⟩
    have hsome : 0 < r.size := by
      have := hin.1
      have := hin.2
      omega
    refine ⟨mem_map_of_apart hnew hsize hr hsome, hin, fun s hs hle => ?_⟩
    rcases mem_insertMapping hs with rfl | hs
    · rw [UInt32.le_iff_toNat_le] at hle ⊢
      have := hin.2
      rcases hnew r hr with h | h <;> omega
    · exact hnearest s hs hle

end Apart

/-! ## Changing a range -/

section Modify
variable {m : Memory} {base : UInt32} {f : Mapping → Mapping}

theorem mappingAt?_modifyMapping (hf : Mapping.InPlace f) (address : UInt32) :
    (m.modifyMapping base f).mappingAt? address =
      (m.mappingAt? address).map fun r => if r.base = base then f r else r := by
  have hsame := hf.ite base
  unfold mappingAt? modifyMapping
  rw [List.filter_map, List.getLast?_map]
  simp only [Function.comp_def, hsame.base]
  cases (m.mappings.filter (·.base ≤ address)).getLast? with
  | none => rfl
  | some r =>
      have hreach : Mapping.reaches (if r.base = base then f r else r) address =
          r.reaches address := by
        simp only [Mapping.reaches, hsame.base, hsame.size]
      simp only [Option.map_some, Option.filter_some, hreach]
      split <;> rfl

theorem mappingAt?_modifyMapping_self (hf : Mapping.InPlace f) {address : UInt32} {r : Mapping}
    (hr : m.mappingAt? address = some r) :
    (m.modifyMapping r.base f).mappingAt? address = some (f r) := by
  rw [mappingAt?_modifyMapping hf, hr, Option.map_some, if_pos rfl]

theorem mappingAt?_modifyMapping_of_ne (hf : Mapping.InPlace f) {address : UInt32} {r : Mapping}
    (hr : m.mappingAt? address = some r) (hne : r.base ≠ base) :
    (m.modifyMapping base f).mappingAt? address = some r := by
  rw [mappingAt?_modifyMapping hf, hr, Option.map_some, if_neg hne]

theorem separate_modifyMapping (hf : Mapping.InPlace f) :
    (m.modifyMapping base f).Separate ↔ m.Separate := by
  have hsame := hf.ite base
  unfold Separate modifyMapping
  rw [List.pairwise_map]
  refine iff_of_eq (congrArg (List.Pairwise · m.mappings) ?_)
  funext r s
  simp only [Mapping.Before, hsame.base, hsame.size]

theorem modifyMapping_modifyMapping {g : Mapping → Mapping} (hf : Mapping.InPlace f) :
    (m.modifyMapping base f).modifyMapping base g = m.modifyMapping base fun r => g (f r) := by
  unfold modifyMapping
  rw [List.map_map]
  refine congrArg (fun mappings => { m with mappings }) (List.map_congr_left fun r _ => ?_)
  simp only [Function.comp_apply]
  by_cases h : r.base = base <;> simp [h, hf.base]

end Modify

/-! ## Memories with the same space -/

section SameSpace
variable {m m' : Memory}

section
variable (h : m'.space = m.space)
include h

theorem mappings_eq_of_space_eq : m'.mappings = m.mappings :=
  show m'.space.mappings = m.space.mappings from h ▸ rfl

theorem mappingAt?_eq_of_space_eq (address : UInt32) :
    m'.mappingAt? address = m.mappingAt? address :=
  show m'.space.mappingAt? address = m.space.mappingAt? address from h ▸ rfl

theorem bytesAt_eq_of_space_eq (address : UInt32) (size : Nat) :
    m'.bytesAt address size = m.bytesAt address size :=
  show m'.space.bytesAt address size = m.space.bytesAt address size from h ▸ rfl

theorem regionAt_eq_of_space_eq (address : UInt32) :
    m'.regionAt address = m.regionAt address :=
  show m'.space.regionAt address = m.space.regionAt address from h ▸ rfl

theorem separate_iff_of_space_eq : m'.Separate ↔ m.Separate :=
  show m'.space.Separate ↔ m.space.Separate from h ▸ Iff.rfl

theorem modifyMapping_space_eq (base : UInt32) (f : Mapping → Mapping) :
    (m'.modifyMapping base f).space = (m.modifyMapping base f).space :=
  show m'.space.modifyMapping base f = m.space.modifyMapping base f from h ▸ rfl

end

theorem space_eq_of_modify_modify {m'' : Memory} {base : UInt32} {f g : Mapping → Mapping}
    (hf : Mapping.InPlace f) (h : m'.space = (m.modifyMapping base f).space)
    (h' : m''.space = (m'.modifyMapping base g).space) :
    m''.space = (m.modifyMapping base fun r => g (f r)).space := by
  rw [h', modifyMapping_space_eq h, modifyMapping_modifyMapping hf]

end SameSpace

end Memory
end CodePatch
