/-
# Writing redirects

What connecting sites to their area does to memory, whatever accesses fail and
whatever bytes the sites expect: outside the sites nothing changes, and the
bytes of a site are the ones before or all of a redirect.  The second is said
of one site first (`connect_outcome`) and then, since sites have no byte in
common, of all of them (`connectAll_outcome`).

Only a site whose bytes are copied is ever redirected.
-/
import CodePatch.Proofs.Breakpoint.Admission
import CodePatch.Proofs.Breakpoint.MachineCode
import CodePatch.Proofs.Breakpoint.Area

namespace CodePatch

namespace Site

/-- The address is not one of a byte of the site. -/
def Outside (site : Site) (i : Nat) : Prop :=
  i < site.address.toNat ∨ site.address.toNat + site.breakpoint.caveSize ≤ i

/-- What a site is, whatever becomes of it. -/
def place (site : Site) : Breakpoint × UInt32 :=
  (site.breakpoint, site.address)

theorem outside_of_clear {site other : Site} (h : site.Clear other) {i : Nat}
    (hi : i < other.breakpoint.caveSize) : site.Outside (other.address.toNat + i) := by
  unfold Outside
  unfold Clear at h
  omega

theorem Clear.symm {site other : Site} (h : site.Clear other) : other.Clear site :=
  Or.symm h

theorem pairwise_clear_of_place {sites sites' : List Site}
    (hplace : sites'.map place = sites.map place) (h : sites.Pairwise Clear) :
    sites'.Pairwise Clear := by
  have hmap : (sites.map place).Pairwise fun p q =>
      p.2.toNat + p.1.caveSize ≤ q.2.toNat ∨ q.2.toNat + q.1.caveSize ≤ p.2.toNat :=
    List.pairwise_map.mpr h
  rw [← hplace, List.pairwise_map] at hmap
  exact hmap

theorem pairwise_address_of_place {sites sites' : List Site}
    (hplace : sites'.map place = sites.map place) (h : sites.Pairwise (·.address ≠ ·.address)) :
    sites'.Pairwise (·.address ≠ ·.address) := by
  have hmap : (sites.map place).Pairwise fun p q => p.2 ≠ q.2 := List.pairwise_map.mpr h
  rw [← hplace, List.pairwise_map] at hmap
  exact hmap

theorem length_of_place {sites sites' : List Site} (hplace : sites'.map place = sites.map place) :
    sites'.length = sites.length := by
  have hlen := congrArg List.length hplace
  rwa [List.length_map, List.length_map] at hlen

theorem exists_of_place {sites sites' : List Site}
    (hplace : sites'.map place = sites.map place) {site' : Site} (h : site' ∈ sites') :
    ∃ site ∈ sites, site'.breakpoint = site.breakpoint ∧ site'.address = site.address := by
  have hmem : site'.place ∈ sites.map place := hplace ▸ List.mem_map_of_mem h
  obtain ⟨site, hsite, heq⟩ := List.mem_map.mp hmem
  exact ⟨site, hsite, congrArg Prod.fst heq.symm, congrArg Prod.snd heq.symm⟩

end Site

namespace BreakpointStage

theorem map_place_relocateAll (base : UInt32) (clears : List UInt16) (b : Bench) (index : Nat)
    (sites : List Site) :
    (relocateAll base clears b index sites).1.map Site.place = sites.map Site.place := by
  induction sites generalizing b index with
  | nil => rfl
  | cons site rest ih =>
      have hfirst : (relocate base clears b index site).1.place = site.place := by
        simp only [relocate]
        rcases b.memory.readBytes site.address site.breakpoint.caveSize with ⟨_ | _, _⟩ <;> rfl
      simp only [relocateAll, List.map_cons, hfirst, ih]

/-! ## One site -/

section Connect
variable (table : BreakpointTable) (b : Bench) (site : Site)

theorem connect_cases :
    ((connect table b site).2.2.memory = b.memory ∨
      site.state = .relocated ∧ ∃ expected, (connect table b site).2.2.memory =
        (b.memory.patch site.address expected
          (MachineCode.redirect site.address site.stub site.breakpoint.caveSize)).memory) ∧
    (connect table b site).1.place = site.place ∧
    ∀ address, (connect table b site).2.1.slot? address = table.slot? address := by
  simp only [connect]
  split
  · rename_i hstate
    have hpatch : ∃ expected, (writeRedirect table.symbols table.options b site).2.memory =
        (b.memory.patch site.address expected
          (MachineCode.redirect site.address site.stub site.breakpoint.caveSize)).memory :=
      ⟨_, rfl⟩
    rcases hw : writeRedirect table.symbols table.options b site with ⟨_ | u, b₁⟩
    all_goals rw [hw] at hpatch
    · exact ⟨Or.inr ⟨hstate, hpatch⟩, rfl, fun _ => rfl⟩
    · exact ⟨Or.inr ⟨hstate, hpatch⟩, rfl, slot?_arm table site.address⟩
  · exact ⟨Or.inl rfl, rfl, fun _ => rfl⟩

/-- Connecting a site leaves its bytes alone, or replaces all of them. -/
theorem connect_outcome :
    b.memory.Keeps (fun _ => True) (connect table b site).2.2.memory ∨
      site.state = .relocated ∧ (connect table b site).2.2.memory.Holds site.address
        (MachineCode.redirect site.address site.stub site.breakpoint.caveSize) := by
  rcases (connect_cases table b site).1 with h | ⟨hstate, expected, h⟩
  · rw [h]
    exact Or.inl (Memory.keeps_of_space_eq rfl)
  · rw [h]
    rcases Memory.holds_or_keeps_patch b.memory site.address expected
      (MachineCode.redirect site.address site.stub site.breakpoint.caveSize) with hnew | ⟨-, hkeep⟩
    · exact Or.inr ⟨hstate, hnew⟩
    · exact Or.inl hkeep

theorem regionAt_connect {other : UInt32}
    (hother : b.memory.baseAt? other ≠ b.memory.baseAt? site.address) :
    (connect table b site).2.2.memory.regionAt other = b.memory.regionAt other := by
  rcases (connect_cases table b site).1 with h | ⟨-, expected, h⟩
  · rw [h]
  · rw [h]
    exact Memory.regionAt_patch _ _ _ _ hother

variable {site} (hsize : Breakpoint.leastCaveSize ≤ site.breakpoint.caveSize)
include hsize

theorem length_redirect_site (stub : UInt32) :
    (MachineCode.redirect site.address stub site.breakpoint.caveSize).length =
      site.breakpoint.caveSize := by
  rw [MachineCode.length_redirect]
  exact Nat.max_eq_left hsize

theorem spares_connect : b.memory.Spares site.Outside (connect table b site).2.2.memory := by
  rcases (connect_cases table b site).1 with h | ⟨-, expected, h⟩
  · rw [h]
    exact Memory.spares_of_space_eq rfl
  · rw [h]
    have hpatch := Memory.spares_patch b.memory site.address expected
      (MachineCode.redirect site.address site.stub site.breakpoint.caveSize)
    rwa [length_redirect_site hsize] at hpatch

end Connect

/-! ## All sites -/

section ConnectAll
variable (table : BreakpointTable) (b : Bench) (sites : List Site)

theorem map_place_connectAll :
    (connectAll table b sites).1.map Site.place = sites.map Site.place := by
  induction sites generalizing table b with
  | nil => rfl
  | cons site rest ih =>
      simp only [connectAll, List.map_cons, (connect_cases table b site).2.1, ih]

theorem slot?_connectAll (address : UInt32) :
    (connectAll table b sites).2.1.slot? address = table.slot? address := by
  induction sites generalizing table b with
  | nil => rfl
  | cons site rest ih =>
      simp only [connectAll]
      rw [ih, (connect_cases table b site).2.2]

theorem regionAt_connectAll {other : UInt32}
    (hsize : ∀ site ∈ sites, Breakpoint.leastCaveSize ≤ site.breakpoint.caveSize)
    (hother : ∀ site ∈ sites, b.memory.baseAt? other ≠ b.memory.baseAt? site.address) :
    (connectAll table b sites).2.2.memory.regionAt other = b.memory.regionAt other := by
  induction sites generalizing table b with
  | nil => rfl
  | cons site rest ih =>
      have hsite := regionAt_connect table b site (hother site List.mem_cons_self)
      have hspares := spares_connect table b (hsize site List.mem_cons_self)
      simp only [connectAll]
      rw [ih _ _ (fun s hs => hsize s (List.mem_cons_of_mem _ hs)), hsite]
      intro s hs
      rw [hspares.baseAt?, hspares.baseAt?]
      exact hother s (List.mem_cons_of_mem _ hs)

variable {sites}

theorem spares_connectAll
    (hsize : ∀ site ∈ sites, Breakpoint.leastCaveSize ≤ site.breakpoint.caveSize) :
    b.memory.Spares (fun i => ∀ site ∈ sites, site.Outside i)
      (connectAll table b sites).2.2.memory := by
  induction sites generalizing table b with
  | nil => exact Memory.spares_of_space_eq rfl
  | cons site rest ih =>
      have hfirst := spares_connect table b (hsize site List.mem_cons_self)
      have hrest := ih (connect table b site).2.1 (connect table b site).2.2
        fun s hs => hsize s (List.mem_cons_of_mem _ hs)
      exact (hfirst.mono fun i hi => hi site List.mem_cons_self).trans
        (hrest.mono fun i hi s hs => hi s (List.mem_cons_of_mem _ hs))

/-- Afterwards each site has the bytes that it had before, or its redirect. -/
theorem connectAll_outcome
    (hsize : ∀ site ∈ sites, Breakpoint.leastCaveSize ≤ site.breakpoint.caveSize)
    (hclear : sites.Pairwise Site.Clear) : ∀ site ∈ sites,
    (∀ bytes, bytes.length = site.breakpoint.caveSize → b.memory.Holds site.address bytes →
      (connectAll table b sites).2.2.memory.Holds site.address bytes) ∨
    site.state = .relocated ∧ (connectAll table b sites).2.2.memory.Holds site.address
      (MachineCode.redirect site.address site.stub site.breakpoint.caveSize) := by
  induction sites generalizing table b with
  | nil => exact fun _ h => absurd h List.not_mem_nil
  | cons first rest ih =>
      obtain ⟨hfirst, hrest⟩ := List.pairwise_cons.mp hclear
      have hsizes : ∀ site ∈ rest, Breakpoint.leastCaveSize ≤ site.breakpoint.caveSize :=
        fun s hs => hsize s (List.mem_cons_of_mem _ hs)
      have hsize₁ := hsize first List.mem_cons_self
      -- the bytes of the first site are out of reach of what follows, and the
      -- bytes of the others out of reach of the first
      have hlater : ∀ bytes, bytes.length = first.breakpoint.caveSize →
          (connect table b first).2.2.memory.Holds first.address bytes →
          (connectAll table b (first :: rest)).2.2.memory.Holds first.address bytes := by
        intro bytes hlen
        refine (spares_connectAll _ _ hsizes).holds fun i hi other hother => ?_
        exact Site.outside_of_clear (hfirst other hother).symm (hlen ▸ hi)
      have hearlier : ∀ other ∈ rest, ∀ bytes, bytes.length = other.breakpoint.caveSize →
          b.memory.Holds other.address bytes →
          (connect table b first).2.2.memory.Holds other.address bytes := by
        intro other hother bytes hlen
        refine (spares_connect table b hsize₁).holds fun i hi => ?_
        exact Site.outside_of_clear (hfirst other hother) (hlen ▸ hi)
      intro site hsite
      rcases List.mem_cons.mp hsite with rfl | hsite
      · rcases connect_outcome table b site with hkeep | ⟨hstate, hnew⟩
        · exact Or.inl fun bytes hlen h => hlater bytes hlen (hkeep _ _ (fun _ _ => trivial) h)
        · exact Or.inr ⟨hstate, hlater _ (length_redirect_site hsize₁ site.stub) hnew⟩
      · rcases ih (connect table b first).2.1 (connect table b first).2.2 hsizes hrest site
          hsite with
          hkeep | hnew
        · exact Or.inl fun bytes hlen h => hkeep bytes hlen (hearlier site hsite bytes hlen h)
        · exact Or.inr hnew

end ConnectAll

end BreakpointStage
end CodePatch
