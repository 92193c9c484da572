/-
# How caves are packed

A layout leaves no room between the caves of a class (`Consecutive`), so where a class
ends can be read off its last slot, and with it all else that the layout promises
(`Packed`): a cave is left out only if it does not fit there, and a class needs a region
of that size, or none if nothing is placed in it.  `caves_are_packed` says so for all
requests.

Sizes are exact numbers here.  The second half of the theorem is that 64-bit words do as
well: whoever adds words, and gives up where a sum wraps around, comes to the same layout
(`WordLayout`).
-/
import CodePatch.Proofs.Cave.Layout

namespace CodePatch

/-! ## Sizes with padding -/

/-- The size with padding, whether it is a 64-bit count or not. -/
def exactPadded (size : Nat) : Nat :=
  (size / caveAlignment + 1) * caveAlignment

theorem exactPadded_spec (size : Nat) : caveAlignment ∣ exactPadded size ∧
    size < exactPadded size ∧ exactPadded size ≤ size + caveAlignment := by
  refine ⟨Nat.dvd_mul_left .., ?_⟩
  unfold exactPadded caveAlignment
  omega

theorem paddedSize_eq (size : Nat) :
    paddedSize size = if exactPadded size < countRange then some (exactPadded size) else none := by
  have hround : (size + 1 + (caveAlignment - 1)) / caveAlignment * caveAlignment =
      exactPadded size := by
    unfold exactPadded caveAlignment
    omega
  rw [paddedSize, alignUp, if_neg (by decide), hround]

namespace CavePlacement

theorem ofRequest_some (used : ClassSizes) (access : AccessClass) (size : Nat) :
    ofRequest used (access, some size) =
      if exactPadded size < countRange ∧ used access + exactPadded size ≤ greatestRegion then
        .placed ⟨access, used access, size, exactPadded size⟩
      else .tooLarge := by
  rw [ofRequest, paddedSize_eq]
  by_cases hcount : exactPadded size < countRange
  · simp only [hcount, if_true, true_and]
  · simp only [hcount, if_false, false_and]

theorem padded_of_placed {used : ClassSizes} {request : CaveRequest} {slot : CaveSlot}
    (h : ofRequest used request = .placed slot) : slot.padded = exactPadded slot.size := by
  obtain ⟨hrequest, -⟩ := ofRequest_placed h
  rw [hrequest, ofRequest_some] at h
  split at h
  · exact (congrArg CaveSlot.padded (CavePlacement.placed.inj h)).symm
  · cases h

/-- The slot of a cave that is placed. -/
def slot? : CavePlacement → Option CaveSlot
  | .placed slot => some slot
  | .empty | .tooLarge => none

end CavePlacement

/-! ## Slots in a row -/

/-- Where a slot ends. -/
def CaveSlot.stop (slot : CaveSlot) : Nat :=
  slot.offset + slot.padded

namespace CaveLayout

open CavePlacement (ofRequest slot? extend)

/-- The slots that a class has among placements, in order. -/
def slotsOf (access : AccessClass) (placements : List CavePlacement) : List CaveSlot :=
  (placements.filterMap slot?).filter (·.access = access)

/-- Where the last slot ends; `start` if there is none. -/
def endOf (start : Nat) (slots : List CaveSlot) : Nat :=
  (slots.getLast?.map CaveSlot.stop).getD start

/-- The first slot begins at `start`, and each one where the one before it ends. -/
def Consecutive (start : Nat) : List CaveSlot → Prop
  | [] => True
  | slot :: rest => slot.offset = start ∧ Consecutive slot.stop rest

theorem endOf_cons (start : Nat) (slot : CaveSlot) (rest : List CaveSlot) :
    endOf start (slot :: rest) = endOf slot.stop rest := by
  unfold endOf
  rw [List.getLast?_cons]
  cases rest.getLast? with
  | none => rfl
  | some last => rfl

theorem Consecutive.start_le {start : Nat} {slots : List CaveSlot} (h : Consecutive start slots) :
    ∀ slot ∈ slots, start ≤ slot.offset := by
  induction slots generalizing start with
  | nil => exact fun slot hslot => absurd hslot List.not_mem_nil
  | cons first rest ih =>
      obtain ⟨hfirst, hrest⟩ := h
      intro slot hslot
      rcases List.mem_cons.mp hslot with rfl | hslot
      · exact Nat.le_of_eq hfirst.symm
      · have hstop : start ≤ first.stop := hfirst ▸ Nat.le_add_right ..
        exact Nat.le_trans hstop (ih hrest slot hslot)

theorem Consecutive.pairwise {start : Nat} {slots : List CaveSlot} (h : Consecutive start slots) :
    slots.Pairwise fun first second => first.stop ≤ second.offset := by
  induction slots generalizing start with
  | nil => exact List.Pairwise.nil
  | cons first rest ih => exact List.pairwise_cons.mpr ⟨h.2.start_le, ih h.2⟩

theorem slotsOf_cons (access : AccessClass) (used : ClassSizes) (request : CaveRequest)
    (later : List CavePlacement) :
    let placement := ofRequest used request
    (slotsOf access (placement :: later) = slotsOf access later ∧
      placement.extend used access = used access) ∨
    ∃ slot, placement = .placed slot ∧ slot.access = access ∧ slot.offset = used access ∧
      slotsOf access (placement :: later) = slot :: slotsOf access later ∧
      placement.extend used access = slot.stop := by
  intro placement
  unfold slotsOf
  rw [List.filterMap_cons]
  cases hplacement : placement with
  | empty => exact Or.inl ⟨rfl, rfl⟩
  | tooLarge => exact Or.inl ⟨rfl, rfl⟩
  | placed slot =>
      obtain ⟨-, hoffset, -⟩ := CavePlacement.ofRequest_placed hplacement
      by_cases haccess : slot.access = access
      · subst haccess
        refine Or.inr ⟨slot, rfl, rfl, hoffset, ?_, CavePlacement.extend_placed used slot⟩
        exact List.filter_cons_of_pos (decide_eq_true rfl)
      · refine Or.inl ⟨List.filter_cons_of_neg ?_, if_neg (Ne.symm haccess)⟩
        rwa [decide_eq_true_eq]

/-- The slots of a class are in a row, behind what is given out in it already. -/
theorem consecutive_behind (access : AccessClass) (used : ClassSizes)
    (requests : List CaveRequest) :
    Consecutive (used access) (slotsOf access (behind used requests).placements) := by
  induction requests generalizing used with
  | nil => exact trivial
  | cons request rest ih =>
      have hrest := ih ((ofRequest used request).extend used)
      rcases slotsOf_cons access used request
        (behind ((ofRequest used request).extend used) rest).placements with
        ⟨hslots, hused⟩ | ⟨slot, -, -, hoffset, hslots, hused⟩
      · rw [hused] at hrest
        exact hslots ▸ hrest
      · rw [hused] at hrest
        exact hslots ▸ ⟨hoffset, hrest⟩

theorem used_behind (access : AccessClass) (used : ClassSizes) (requests : List CaveRequest) :
    (behind used requests).used access =
      endOf (used access) (slotsOf access (behind used requests).placements) := by
  induction requests generalizing used with
  | nil => rfl
  | cons request rest ih =>
      have hrest := ih ((ofRequest used request).extend used)
      rcases slotsOf_cons access used request
        (behind ((ofRequest used request).extend used) rest).placements with
        ⟨hslots, hused⟩ | ⟨slot, -, -, -, hslots, hused⟩
      · rw [hused, ← hslots] at hrest
        exact hrest
      · rw [hused, ← endOf_cons (used access), ← hslots] at hrest
        exact hrest

/-! ## One request among others -/

/-- The requests before one are placed as if there were no others. -/
theorem take_placements (used : ClassSizes) (requests : List CaveRequest) (i : Nat) :
    (behind used requests).placements.take i = (behind used (requests.take i)).placements := by
  induction requests generalizing used i with
  | nil => rw [List.take_nil]; exact List.take_nil
  | cons request rest ih =>
      cases i with
      | zero => rfl
      | succ i => exact congrArg (_ :: ·) (ih _ i)

theorem placement_eq {used : ClassSizes} {requests : List CaveRequest} {i : Nat}
    {request : CaveRequest} (h : requests[i]? = some request) :
    (behind used requests).placements[i]? =
      some (ofRequest (behind used (requests.take i)).used request) := by
  induction requests generalizing used i with
  | nil => cases h
  | cons first rest ih =>
      cases i with
      | zero =>
          cases h
          rfl
      | succ i => exact ih h

theorem dvd_used_behind {used : ClassSizes} (hused : ∀ access, caveAlignment ∣ used access)
    (requests : List CaveRequest) (access : AccessClass) :
    caveAlignment ∣ (behind used requests).used access := by
  induction requests generalizing used with
  | nil => exact hused access
  | cons request rest ih =>
      refine ih fun other => ?_
      cases h : ofRequest used request with
      | empty => exact hused other
      | tooLarge => exact hused other
      | placed slot =>
          obtain ⟨-, hoffset, -⟩ := CavePlacement.ofRequest_placed h
          simp only [extend]
          split
          · rw [hoffset, CavePlacement.padded_of_placed h]
            exact Nat.dvd_add (hused _) (exactPadded_spec _).1
          · exact hused other

/-! ## A layout -/

/-- What a layout is to its requests. -/
structure Packed (requests : List CaveRequest) (layout : CaveLayout) : Prop where
  /-- There is one placement for each request. -/
  length : layout.placements.length = requests.length
  /-- A request without a size needs no memory, and no other. -/
  empty : ∀ (i : Nat) request, requests[i]? = some request →
    (layout.placements[i]? = some .empty ↔ request.2 = none)
  /-- A request is too large if its size with padding is no 64-bit count, or does not
  fit behind the last slot before it. -/
  tooLarge : ∀ (i : Nat) access size, requests[i]? = some (access, some size) →
    (layout.placements[i]? = some .tooLarge ↔ countRange ≤ exactPadded size ∨
      greatestRegion < endOf 0 (slotsOf access (layout.placements.take i)) + exactPadded size)
  /-- A slot is the one that was asked for, and is aligned and padded. -/
  placed : ∀ (i : Nat) slot, layout.placements[i]? = some (.placed slot) →
    requests[i]? = some (slot.access, some slot.size) ∧
      caveAlignment ∣ slot.offset ∧ caveAlignment ∣ slot.padded ∧
      slot.size < slot.padded ∧ slot.padded ≤ slot.size + caveAlignment
  /-- The slots of a class are in a row, from the start of the region on. -/
  consecutive : ∀ access, Consecutive 0 (slotsOf access layout.placements)
  apart : ∀ access, (slotsOf access layout.placements).Pairwise fun first second =>
    first.stop ≤ second.offset
  /-- A class needs a region if it has a slot, and up to the end of its last one. -/
  sizes : ∀ access size, (access, size) ∈ layout.classSizes ↔
    ∃ last, (slotsOf access layout.placements).getLast? = some last ∧ size = last.stop
  once : layout.classSizes.Pairwise fun first second => first.1 ≠ second.1
  bounded : ∀ entry ∈ layout.classSizes, entry.2 ≤ greatestRegion

section Whole
variable (requests : List CaveRequest)

theorem used_ofRequests (access : AccessClass) : (ofRequests requests).used access =
    endOf 0 (slotsOf access (ofRequests requests).placements) :=
  used_behind access (fun _ => 0) requests

theorem placement_at_eq {i : Nat} {request : CaveRequest} (h : requests[i]? = some request) :
    ∃ used : ClassSizes, (ofRequests requests).placements[i]? = some (ofRequest used request) ∧
      (∀ access, caveAlignment ∣ used access) ∧
      ∀ access, used access =
        endOf 0 (slotsOf access ((ofRequests requests).placements.take i)) := by
  refine ⟨(ofRequests (requests.take i)).used, placement_eq h, ?_, ?_⟩
  · exact dvd_used_behind (fun _ => Nat.dvd_zero _) (requests.take i)
  · intro access
    unfold ofRequests
    rw [take_placements]
    exact used_behind access (fun _ => 0) (requests.take i)

theorem request_at {i : Nat} {placement : CavePlacement}
    (h : (ofRequests requests).placements[i]? = some placement) :
    ∃ request, requests[i]? = some request := by
  obtain ⟨hi, -⟩ := List.getElem?_eq_some_iff.mp h
  unfold ofRequests at hi
  rw [length_placements_behind] at hi
  exact ⟨_, List.getElem?_eq_getElem hi⟩

theorem empty_iff {i : Nat} {request : CaveRequest} (h : requests[i]? = some request) :
    (ofRequests requests).placements[i]? = some .empty ↔ request.2 = none := by
  obtain ⟨used, hplacement, -⟩ := placement_at_eq requests h
  rw [hplacement, Option.some.injEq]
  obtain ⟨access, _ | size⟩ := request
  · exact iff_of_true rfl rfl
  · rw [CavePlacement.ofRequest_some]
    refine iff_of_false ?_ (Option.some_ne_none size)
    split
    · exact CavePlacement.noConfusion
    · exact CavePlacement.noConfusion

theorem tooLarge_iff {i : Nat} {access : AccessClass} {size : Nat}
    (h : requests[i]? = some (access, some size)) :
    (ofRequests requests).placements[i]? = some .tooLarge ↔
      countRange ≤ exactPadded size ∨ greatestRegion <
        endOf 0 (slotsOf access ((ofRequests requests).placements.take i)) + exactPadded size := by
  obtain ⟨used, hplacement, -, hused⟩ := placement_at_eq requests h
  rw [hplacement, Option.some.injEq, CavePlacement.ofRequest_some, ← hused access]
  split
  · rename_i hfits
    refine iff_of_false CavePlacement.noConfusion ?_
    rintro (hcount | hregion)
    · exact Nat.not_le.mpr hfits.1 hcount
    · exact Nat.not_le.mpr hregion hfits.2
  · rename_i hnot
    refine iff_of_true rfl ?_
    rwa [not_and_or, Nat.not_lt, Nat.not_le] at hnot

theorem placed_spec {i : Nat} {slot : CaveSlot}
    (h : (ofRequests requests).placements[i]? = some (.placed slot)) :
    requests[i]? = some (slot.access, some slot.size) ∧
      caveAlignment ∣ slot.offset ∧ caveAlignment ∣ slot.padded ∧
      slot.size < slot.padded ∧ slot.padded ≤ slot.size + caveAlignment := by
  obtain ⟨request, hrequest⟩ := request_at requests h
  obtain ⟨used, hplacement, hdvd, -⟩ := placement_at_eq requests hrequest
  rw [hplacement, Option.some.injEq] at h
  obtain ⟨rfl, hoffset, -⟩ := CavePlacement.ofRequest_placed h
  obtain ⟨hpadded, hroom, hleast⟩ := exactPadded_spec slot.size
  rw [← CavePlacement.padded_of_placed h] at hpadded hroom hleast
  exact ⟨hrequest, hoffset ▸ hdvd slot.access, hpadded, hroom, hleast⟩

theorem pos_of_mem_slotsOf {access : AccessClass} {slot : CaveSlot}
    (h : slot ∈ slotsOf access (ofRequests requests).placements) : 0 < slot.stop := by
  obtain ⟨hslot, -⟩ := List.mem_filter.mp h
  obtain ⟨placement, hmem, hplaced⟩ := List.mem_filterMap.mp hslot
  obtain ⟨i, hi⟩ := List.mem_iff_getElem?.mp hmem
  cases placement with
  | empty => cases hplaced
  | tooLarge => cases hplaced
  | placed found =>
      cases hplaced
      obtain ⟨-, -, -, hroom, -⟩ := placed_spec requests hi
      exact Nat.lt_of_lt_of_le (Nat.zero_lt_of_lt hroom) (Nat.le_add_left ..)

theorem mem_sizes_iff (access : AccessClass) (size : Nat) :
    (access, size) ∈ (ofRequests requests).classSizes ↔
      ∃ last, (slotsOf access (ofRequests requests).placements).getLast? = some last ∧
        size = last.stop := by
  rw [mem_classSizes, used_ofRequests, endOf]
  cases hlast : (slotsOf access (ofRequests requests).placements).getLast? with
  | none =>
      refine iff_of_false ?_ ?_
      · rintro ⟨hsize, hne⟩
        exact hne hsize
      · rintro ⟨last, hnone, -⟩
        cases hnone
  | some last =>
      have hpos := pos_of_mem_slotsOf requests (List.mem_of_getLast? hlast)
      constructor
      · rintro ⟨hsize, -⟩
        exact ⟨last, rfl, hsize⟩
      · rintro ⟨found, hfound, rfl⟩
        cases hfound
        exact ⟨rfl, Nat.ne_of_gt hpos⟩

theorem packed_ofRequests : Packed requests (ofRequests requests) where
  length := length_placements_behind _ requests
  empty _ _ h := empty_iff requests h
  tooLarge _ _ _ h := tooLarge_iff requests h
  placed _ _ h := placed_spec requests h
  consecutive access := consecutive_behind access (fun _ => 0) requests
  apart access := (consecutive_behind access (fun _ => 0) requests).pairwise
  sizes := mem_sizes_iff requests
  once := pairwise_classSizes _
  bounded := by
    rintro ⟨access, size⟩ hentry
    obtain ⟨rfl, -⟩ := mem_classSizes.mp hentry
    exact used_behind_le (fun _ => Nat.zero_le _) requests access

end Whole

end CaveLayout

/-! ## The same in words

Every sum is made modulo `2 ^ 64` and kept only if it did not wrap around.  A cave whose
sums are not all kept does not fit anyway. -/

namespace WordLayout

/-- A request for a place, with its size in a word. -/
abbrev Request := AccessClass × Option UInt64

/-- The request with its size as a number. -/
def exact (request : Request) : CaveRequest :=
  (request.1, request.2.map UInt64.toNat)

/-- The sum of two words, unless it wraps around. -/
def sum? (a b : UInt64) : Option UInt64 :=
  if a ≤ a + b then some (a + b) else none

/-- The size with padding: the next multiple of the alignment behind the size. -/
def padded? (size : UInt64) : Option UInt64 :=
  (sum? size 1).bind fun least =>
    if least % 16 = 0 then some least else sum? least (16 - least % 16)

/-- Where a request goes, and what is given out then. -/
def place (used : AccessClass → UInt64) : Request → CavePlacement × (AccessClass → UInt64)
  | (_, none) => (.empty, used)
  | (access, some size) =>
    match (padded? size).bind fun padded => (sum? (used access) padded).map (padded, ·) with
    | none => (.tooLarge, used)
    | some (padded, stop) =>
      if stop ≤ 0xFFFFFFFF then
        (.placed ⟨access, (used access).toNat, size.toNat, padded.toNat⟩,
          fun other => if other = access then stop else used other)
      else (.tooLarge, used)

/-- The placements of requests behind what is given out already, and what is in the end. -/
def behind (used : AccessClass → UInt64) :
    List Request → List CavePlacement × (AccessClass → UInt64)
  | [] => ([], used)
  | request :: rest =>
    let (placement, used) := place used request
    let (later, used) := behind used rest
    (placement :: later, used)

/-- A sum that is kept is exact, and one that is not kept is no word. -/
theorem sum?_cases (a b : UInt64) :
    (∃ sum, sum? a b = some sum ∧ sum.toNat = a.toNat + b.toNat) ∨
    (sum? a b = none ∧ countRange ≤ a.toNat + b.toNat) := by
  have ha := a.toNat_lt
  have hb := b.toNat_lt
  have hsum : (a + b).toNat = (a.toNat + b.toNat) % 2 ^ 64 := UInt64.toNat_add a b
  by_cases hwraps : a.toNat + b.toNat < 2 ^ 64
  · rw [Nat.mod_eq_of_lt hwraps] at hsum
    refine Or.inl ⟨a + b, if_pos (UInt64.le_iff_toNat_le.mpr ?_), hsum⟩
    exact hsum ▸ Nat.le_add_right ..
  · refine Or.inr ⟨if_neg fun hle => ?_, Nat.not_lt.mp hwraps⟩
    have hle := UInt64.le_iff_toNat_le.mp hle
    omega

theorem padded?_cases (size : UInt64) :
    (∃ padded, padded? size = some padded ∧ padded.toNat = exactPadded size.toNat) ∨
    (padded? size = none ∧ countRange ≤ exactPadded size.toNat) := by
  obtain ⟨-, hroom, -⟩ := exactPadded_spec size.toNat
  rw [padded?]
  rcases sum?_cases size 1 with ⟨least, hleast, hexact⟩ | ⟨hnone, hcount⟩
  · rw [hleast, Option.bind_some]
    have hone : least.toNat = size.toNat + 1 := hexact
    have hmod : (least % 16).toNat = least.toNat % 16 := UInt64.toNat_mod least 16
    by_cases haligned : least % 16 = 0
    · refine Or.inl ⟨least, if_pos haligned, ?_⟩
      rw [haligned] at hmod
      have hzero : 0 = least.toNat % 16 := hmod
      unfold exactPadded caveAlignment
      omega
    · have hne : least.toNat % 16 ≠ 0 := fun hzero =>
        haligned (UInt64.toNat_inj.mp (hmod.trans hzero))
      have hle : least % 16 ≤ 16 :=
        UInt64.le_iff_toNat_le.mpr (hmod ▸ Nat.le_of_lt (Nat.mod_lt _ (by decide)))
      have hgap : (16 - least % 16).toNat = 16 - least.toNat % 16 :=
        (UInt64.toNat_sub_of_le _ _ hle).trans (congrArg (16 - ·) hmod)
      have hpadded : least.toNat + (16 - least % 16).toNat = exactPadded size.toNat := by
        rw [hgap]
        unfold exactPadded caveAlignment
        omega
      rw [if_neg haligned, ← hpadded]
      exact sum?_cases least (16 - least % 16)
  · rw [hnone]
    exact Or.inr ⟨rfl, Nat.le_trans hcount hroom⟩

theorem place_eq (used : AccessClass → UInt64) (request : Request) :
    (place used request).1 = CavePlacement.ofRequest (fun access => (used access).toNat)
      (exact request) ∧
    ∀ access, ((place used request).2 access).toNat =
      (place used request).1.extend (fun access => (used access).toNat) access := by
  obtain ⟨access, _ | size⟩ := request
  · exact ⟨rfl, fun _ => rfl⟩
  have hgreatest : greatestRegion < countRange := by decide
  rw [exact, Option.map_some, CavePlacement.ofRequest_some, place]
  rcases padded?_cases size with ⟨padded, hpadded, hexact⟩ | ⟨hnone, hcount⟩
  · have hword : exactPadded size.toNat < countRange := hexact ▸ padded.toNat_lt
    rw [hpadded, Option.bind_some, ← hexact]
    rcases sum?_cases (used access) padded with ⟨stop, hstop, hsum⟩ | ⟨hnone, hcount⟩
    · rw [hstop, Option.map_some]
      by_cases hfits : stop ≤ 0xFFFFFFFF
      · have hregion : (used access).toNat + padded.toNat ≤ greatestRegion :=
          hsum ▸ UInt64.le_iff_toNat_le.mp hfits
        simp only [if_pos hfits]
        rw [if_pos ⟨hexact ▸ hword, hregion⟩]
        refine ⟨rfl, fun other => ?_⟩
        by_cases hother : other = access
        · simp only [CavePlacement.extend, hother, if_true]
          exact hsum
        · simp only [CavePlacement.extend, if_neg hother]
      · have hregion : ¬ (used access).toNat + padded.toNat ≤ greatestRegion := fun hle =>
          hfits (UInt64.le_iff_toNat_le.mpr (hsum ▸ hle))
        simp only [if_neg hfits]
        rw [if_neg fun both => hregion both.2]
        exact ⟨rfl, fun _ => rfl⟩
    · rw [hnone, if_neg fun both => ?_]
      · exact ⟨rfl, fun _ => rfl⟩
      · exact absurd (Nat.lt_of_le_of_lt both.2 hgreatest) (Nat.not_lt.mpr hcount)
  · rw [hnone, if_neg fun both => Nat.not_lt.mpr hcount both.1]
    exact ⟨rfl, fun _ => rfl⟩

/-- Requests go where they go in exact numbers, and so much is given out. -/
theorem behind_eq (used : AccessClass → UInt64) (requests : List Request) :
    let layout := CaveLayout.behind (fun access => (used access).toNat) (requests.map exact)
    (behind used requests).1 = layout.placements ∧
      ∀ access, ((behind used requests).2 access).toNat = layout.used access := by
  induction requests generalizing used with
  | nil => exact ⟨rfl, fun _ => rfl⟩
  | cons request rest ih =>
      obtain ⟨hplacement, hused⟩ := place_eq used request
      obtain ⟨hlater, hend⟩ := ih (place used request).2
      rw [funext hused, hplacement] at hlater hend
      exact ⟨congrArg₂ List.cons hplacement hlater, hend⟩

end WordLayout

namespace CaveLayout

/-- The slots of each class are in a row; a cave is left out only if it does not fit, and
no sum is made that could go wrong in words. -/
theorem caves_are_packed :
    (∀ requests, Packed requests (ofRequests requests)) ∧
    ∀ requests : List WordLayout.Request,
      let layout := ofRequests (requests.map WordLayout.exact)
      (WordLayout.behind (fun _ => 0) requests).1 = layout.placements ∧
        ∀ access, ((WordLayout.behind (fun _ => 0) requests).2 access).toNat = layout.used access :=
  ⟨packed_ofRequests, WordLayout.behind_eq fun _ => 0⟩

end CaveLayout
end CodePatch
