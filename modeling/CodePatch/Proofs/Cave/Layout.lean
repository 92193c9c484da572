/-
# Where caves are placed

The offsets that `CaveLayout` gives out.  What is given out in a class only
grows, so a cave begins at or behind the end of every earlier cave of its
class; and each cave lies below what is given out in the end, which is the size
of the region that is asked for.

The sizes here are offsets in regions that do not exist yet.  That regions are
apart from each other is a matter of allocation, not of layout.
-/
import Mathlib
import CodePatch.Cave.Layout

namespace CodePatch

/-- A cave has a byte of padding at least. -/
theorem lt_of_paddedSize {size padded : Nat} (h : paddedSize size = some padded) :
    size < padded := by
  rw [paddedSize, alignUp, if_neg (by decide)] at h
  obtain ⟨-, hpadded⟩ := Option.ite_none_right_eq_some.mp h
  have hround := Option.some.inj hpadded
  rw [caveAlignment] at hround
  omega

namespace CavePlacement

/-- A cave that is placed is the one that was asked for, begins where the class
ended before, and fits. -/
theorem ofRequest_placed {used : ClassSizes} {request : CaveRequest} {slot : CaveSlot}
    (h : ofRequest used request = .placed slot) :
    request = (slot.access, some slot.size) ∧ slot.offset = used slot.access ∧
      slot.size < slot.padded ∧ slot.offset + slot.padded ≤ greatestRegion := by
  obtain ⟨access, size⟩ := request
  cases size with
  | none => cases h
  | some size =>
      simp only [ofRequest] at h
      split at h
      · cases h
      · rename_i padded hpadded
        split at h
        · rename_i hfits
          cases h
          exact ⟨rfl, rfl, lt_of_paddedSize hpadded, hfits⟩
        · cases h

theorem extend_placed (used : ClassSizes) (slot : CaveSlot) :
    extend used (.placed slot) slot.access = slot.offset + slot.padded :=
  if_pos rfl

theorem le_extend (used : ClassSizes) (request : CaveRequest) (access : AccessClass) :
    used access ≤ (ofRequest used request).extend used access := by
  cases h : ofRequest used request with
  | empty => exact Nat.le_refl _
  | tooLarge => exact Nat.le_refl _
  | placed slot =>
      obtain ⟨-, hoffset, -⟩ := ofRequest_placed h
      simp only [extend]
      split
      · rename_i heq
        rw [heq, hoffset]
        exact Nat.le_add_right ..
      · exact Nat.le_refl _

theorem extend_le {used : ClassSizes} (hused : ∀ access, used access ≤ greatestRegion)
    (request : CaveRequest) (access : AccessClass) :
    (ofRequest used request).extend used access ≤ greatestRegion := by
  cases h : ofRequest used request with
  | empty => exact hused access
  | tooLarge => exact hused access
  | placed slot =>
      obtain ⟨-, -, -, hfits⟩ := ofRequest_placed h
      simp only [extend]
      split
      · exact hfits
      · exact hused access

end CavePlacement

namespace CaveLayout

open CavePlacement (ofRequest)

/-- The slot lies behind what is given out in `used` and below what is given
out in `used'`. -/
def Between (used used' : ClassSizes) (slot : CaveSlot) : Prop :=
  used slot.access ≤ slot.offset ∧ slot.offset + slot.padded ≤ used' slot.access

theorem le_used_behind (used : ClassSizes) (requests : List CaveRequest) (access : AccessClass) :
    used access ≤ (behind used requests).used access := by
  induction requests generalizing used with
  | nil => exact Nat.le_refl _
  | cons request rest ih =>
      exact Nat.le_trans (CavePlacement.le_extend used request access) (ih _)

theorem used_behind_le {used : ClassSizes} (hused : ∀ access, used access ≤ greatestRegion)
    (requests : List CaveRequest) (access : AccessClass) :
    (behind used requests).used access ≤ greatestRegion := by
  induction requests generalizing used with
  | nil => exact hused access
  | cons request rest ih => exact ih (CavePlacement.extend_le hused request)

theorem between_of_mem {used : ClassSizes} {requests : List CaveRequest} {slot : CaveSlot}
    (h : .placed slot ∈ (behind used requests).placements) :
    Between used (behind used requests).used slot := by
  induction requests generalizing used with
  | nil => exact absurd h List.not_mem_nil
  | cons request rest ih =>
      rcases List.mem_cons.mp h with h | h
      · obtain ⟨-, hoffset, -⟩ := CavePlacement.ofRequest_placed h.symm
        have hlater := le_used_behind ((ofRequest used request).extend used) rest slot.access
        refine ⟨Nat.le_of_eq hoffset.symm, Nat.le_trans (Nat.le_of_eq ?_) hlater⟩
        rw [← h, CavePlacement.extend_placed]
      · obtain ⟨hlow, hhigh⟩ := ih h
        exact ⟨Nat.le_trans (CavePlacement.le_extend used request slot.access) hlow, hhigh⟩

theorem pairwise_placements (used : ClassSizes) (requests : List CaveRequest) :
    (behind used requests).placements.Pairwise fun first second =>
      ∀ slot later, first = .placed slot → second = .placed later →
        slot.access = later.access → slot.offset + slot.padded ≤ later.offset := by
  induction requests generalizing used with
  | nil => exact List.Pairwise.nil
  | cons request rest ih =>
      refine List.pairwise_cons.mpr ⟨?_, ih _⟩
      rintro placement hplacement slot later hslot rfl haccess
      have hlow := (between_of_mem hplacement).1
      rw [hslot, ← haccess, CavePlacement.extend_placed] at hlow
      exact hlow

theorem placement_at {used : ClassSizes} {requests : List CaveRequest} {i : Nat}
    {request : CaveRequest} {slot : CaveSlot} (hrequest : requests[i]? = some request)
    (h : (behind used requests).placements[i]? = some (.placed slot)) :
    request = (slot.access, some slot.size) ∧ slot.size < slot.padded := by
  induction requests generalizing used i with
  | nil => cases hrequest
  | cons first rest ih =>
      cases i with
      | zero =>
          cases hrequest
          obtain ⟨hreq, -, hpad, -⟩ := CavePlacement.ofRequest_placed (Option.some.inj h)
          exact ⟨hreq, hpad⟩
      | succ i => exact ih hrequest h

/-! ## Regions -/

theorem mem_classSizes {layout : CaveLayout} {access : AccessClass} {size : Nat} :
    (access, size) ∈ layout.classSizes ↔ size = layout.used access ∧ size ≠ 0 := by
  simp only [classSizes, List.mem_filterMap]
  constructor
  · rintro ⟨other, -, h⟩
    split at h
    · cases h
    · rename_i hne
      cases h
      exact ⟨rfl, hne⟩
  · rintro ⟨rfl, hne⟩
    exact ⟨access, AccessClass.mem_all access, if_neg hne⟩

theorem pairwise_classSizes (layout : CaveLayout) :
    layout.classSizes.Pairwise fun first second => first.1 ≠ second.1 := by
  have hall : AccessClass.all.Pairwise (· ≠ ·) := by decide
  refine List.pairwise_filterMap.mpr (hall.imp fun hne p hp q hq => ?_)
  split at hp
  · cases hp
  · split at hq
    · cases hq
    · cases hp
      cases hq
      exact hne

end CaveLayout
end CodePatch
