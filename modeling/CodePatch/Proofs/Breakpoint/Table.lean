/-
# Breakpoint tables as maps

A table finds its entries by halving a sorted list.  If no two of them are at one
address, that is a map from addresses to entries: an entry is found if and only if it
is one of those that the table was made of (`entryAt?_ofEntries_iff`), in whatever order
they came.

Two things can be asked of a table, to arm a breakpoint and to handle a hit
(`TableCall`).  `MapAnswers` says what a map answers after other calls, in terms of the
entries and of these calls alone: a hit concerns the one breakpoint whose call returns
there, and its handler is called if an earlier call has armed it.
`calls_answer_as_a_map` says that a table gives these answers to any sequence of
calls.  What carries it along the sequence is `Tracks`: each entry is found with what it
came with, and is armed if it was asked for.
-/
import Mathlib
import CodePatch.Breakpoint.Table

namespace CodePatch

namespace TableEntry

/-! ## Halving -/

variable {address : UInt32} {entry : TableEntry} {steps : Nat} {entries : List TableEntry}

theorem mem_of_search (h : search address steps entries = some entry) :
    entry ∈ entries ∧ entry.address = address := by
  induction steps generalizing entries with
  | zero => cases h
  | succ steps ih =>
      simp only [search] at h
      rcases hdrop : entries.drop (entries.length / 2) with _ | ⟨middle, above⟩
      · rw [hdrop] at h
        cases h
      have hsub : middle :: above ⊆ entries := hdrop ▸ List.drop_subset _ _
      simp only [hdrop] at h
      split at h
      · rename_i hfound
        obtain rfl := Option.some.inj h
        exact ⟨hsub List.mem_cons_self, hfound⟩
      · split at h
        · obtain ⟨hmem, haddress⟩ := ih h
          exact ⟨hsub (List.mem_cons_of_mem _ hmem), haddress⟩
        · obtain ⟨hmem, haddress⟩ := ih h
          exact ⟨List.take_subset _ _ hmem, haddress⟩

/-- An entry of a sorted list is on the side of the middle that its address is on. -/
theorem mem_half_of_mem {middle : TableEntry} {above : List TableEntry} {half : Nat}
    (hsorted : entries.Pairwise (·.address ≤ ·.address))
    (hdrop : entries.drop half = middle :: above) (hentry : entry ∈ entries)
    (hne : middle.address ≠ entry.address) :
    if middle.address < entry.address then entry ∈ above else entry ∈ entries.take half := by
  have hsplit : entries = entries.take half ++ middle :: above := by
    rw [← hdrop, List.take_append_drop]
  rw [hsplit] at hsorted hentry
  obtain ⟨-, hupper, hacross⟩ := List.pairwise_append.mp hsorted
  rcases List.mem_append.mp hentry with hlow | hhigh
  · have hle := hacross entry hlow middle List.mem_cons_self
    rwa [if_neg (UInt32.not_lt.mpr hle)]
  · rcases List.mem_cons.mp hhigh with rfl | habove
    · exact absurd rfl hne
    · have hle := (List.pairwise_cons.mp hupper).1 entry habove
      rwa [if_pos (UInt32.lt_of_le_of_ne hle hne)]

theorem isSome_search (hsorted : entries.Pairwise (·.address ≤ ·.address))
    (hsteps : entries.length ≤ steps) (hentry : entry ∈ entries) :
    (search entry.address steps entries).isSome = true := by
  induction steps generalizing entries with
  | zero =>
      rw [List.length_eq_zero_iff.mp (Nat.le_zero.mp hsteps)] at hentry
      exact absurd hentry List.not_mem_nil
  | succ steps ih =>
      have hpos := List.length_pos_of_mem hentry
      have hhalf : entries.length / 2 < entries.length := Nat.div_lt_self hpos (by decide)
      have hdrop := List.drop_eq_getElem_cons hhalf
      simp only [search, hdrop]
      split
      · rfl
      rename_i hne
      have hside := mem_half_of_mem hsorted hdrop hentry hne
      split
      · rename_i hlt
        rw [if_pos hlt] at hside
        refine ih (hsorted.sublist (List.drop_sublist _ _)) ?_ hside
        rw [List.length_drop]
        omega
      · rename_i hnot
        rw [if_neg hnot] at hside
        refine ih (hsorted.sublist (List.take_sublist _ _)) ?_ hside
        rw [List.length_take]
        omega

end TableEntry

namespace BreakpointTable

theorem mem_of_entryAt? {t : BreakpointTable} {address : UInt32} {entry : TableEntry}
    (h : t.entryAt? address = some entry) : entry ∈ t.entries ∧ entry.address = address :=
  TableEntry.mem_of_search h

theorem isSome_entryAt? {t : BreakpointTable} {entry : TableEntry} (h : entry ∈ t.entries) :
    (t.entryAt? entry.address).isSome = true :=
  TableEntry.isSome_search t.sorted (Nat.le_refl _) h

section OfEntries
variable (symbols : Symbols) (options : Options) {entries : List TableEntry}

theorem mem_ofEntries {entry : TableEntry} :
    entry ∈ (ofEntries symbols options entries).entries ↔ entry ∈ entries :=
  (TableEntry.perm_sort entries).mem_iff

theorem isSome_entryAt?_ofEntries {address : UInt32} :
    ((ofEntries symbols options entries).entryAt? address).isSome = true ↔
      ∃ entry ∈ entries, entry.address = address := by
  constructor
  · intro h
    obtain ⟨entry, hentry⟩ := Option.isSome_iff_exists.mp h
    obtain ⟨hmem, haddress⟩ := mem_of_entryAt? hentry
    exact ⟨entry, (mem_ofEntries symbols options).mp hmem, haddress⟩
  · rintro ⟨entry, hentry, rfl⟩
    exact isSome_entryAt? ((mem_ofEntries symbols options).mpr hentry)

/-- A table of entries at addresses that differ is a map. -/
theorem entryAt?_ofEntries_iff (hentries : entries.Pairwise (·.address ≠ ·.address))
    {address : UInt32} {entry : TableEntry} :
    (ofEntries symbols options entries).entryAt? address = some entry ↔
      entry ∈ entries ∧ entry.address = address := by
  constructor
  · intro h
    obtain ⟨hmem, haddress⟩ := mem_of_entryAt? h
    exact ⟨(mem_ofEntries symbols options).mp hmem, haddress⟩
  · rintro ⟨hentry, rfl⟩
    obtain ⟨found, hfound⟩ := Option.isSome_iff_exists.mp
      ((isSome_entryAt?_ofEntries symbols options).mpr ⟨entry, hentry, rfl⟩)
    obtain ⟨hmem, haddress⟩ := mem_of_entryAt? hfound
    -- there is only one entry at that address
    obtain rfl := List.inj_on_of_nodup_map (List.pairwise_map.mpr hentries)
      ((mem_ofEntries symbols options).mp hmem) hentry haddress
    exact hfound

end OfEntries
end BreakpointTable

/-! ## Hits -/

/-- What the handler of an entry is called with. -/
def TableEntry.hit (symbols : Symbols) (options : Options) (entry : TableEntry)
    (registers : Registers) (bench : Bench) : Hit where
  name := entry.name
  address := entry.address
  registers
  config := entry.config
  symbols
  options
  bench

namespace BreakpointTable

section Fire
variable {t : BreakpointTable} {registers : Registers} (bench : Bench)

theorem fire_of_absent (h : t.entryAt? (registers.returnAddress - 5) = none) :
    ∃ said, t.fire registers bench = ⟨none, registers, [], bench.say said⟩ := by
  have hlength : UInt32.ofNat callLength = 5 := rfl
  simp only [fire, hlength, h]
  exact ⟨_, rfl⟩

variable {entry : TableEntry} (h : t.entryAt? (registers.returnAddress - 5) = some entry)
include h

theorem fire_of_unarmed (hrests : entry.armed = false) : t.fire registers bench =
    ⟨some .cave, { registers with returnAddress := entry.slot }, [], bench⟩ := by
  have hlength : UInt32.ofNat callLength = 5 := rfl
  simp only [fire, hlength, h, callHandler, hrests, Bool.false_eq_true, if_false]
  rfl

theorem fire_of_armed (harmed : entry.armed = true) {resume : Resume} {hit : Hit}
    (hcalled : entry.handler (entry.hit t.symbols t.options registers bench) = (resume, hit)) :
    t.fire registers bench =
      ⟨some resume, registersAfter entry hit.registers resume, hit.notes, hit.bench⟩ := by
  have hlength : UInt32.ofNat callLength = 5 := rfl
  have hcalled : entry.handler (t.hitOf entry registers bench) = (resume, hit) := hcalled
  simp only [fire, hlength, h, callHandler, harmed, if_true, hcalled]

end Fire
end BreakpointTable

/-! ## Sequences of calls -/

/-- What can be asked of a table. -/
inductive TableCall where
  | arm (address : UInt32)
  /-- To handle a hit with these registers, on the bench as it is by then. -/
  | fire (registers : Registers) (bench : Bench)

/-- What a table answers. -/
inductive TableAnswer where
  | armed (found : Bool)
  | fired (firing : Firing)

namespace BreakpointTable

/-- The answer to a call, and the table behind it. -/
def call (t : BreakpointTable) : TableCall → TableAnswer × BreakpointTable
  | .arm address => (.armed (t.arm address).1, (t.arm address).2)
  | .fire registers bench => (.fired (t.fire registers bench), t)

/-- The answers to calls made one after the other. -/
def calls (t : BreakpointTable) : List TableCall → List TableAnswer
  | [] => []
  | call :: rest => (t.call call).1 :: (t.call call).2.calls rest

end BreakpointTable

/-- The entry is armed once the calls are made. -/
def TableEntry.ArmedBy (calls : List TableCall) (entry : TableEntry) : Prop :=
  entry.armed = true ∨ .arm entry.address ∈ calls

/-- What a map of the entries by address answers to a call behind `earlier` ones. -/
inductive MapAnswers (symbols : Symbols) (options : Options) (entries : List TableEntry)
    (earlier : List TableCall) : TableCall → TableAnswer → Prop where
  | arm {address : UInt32} {found : Bool}
      (present : found = true ↔ ∃ entry ∈ entries, entry.address = address) :
      MapAnswers symbols options entries earlier (.arm address) (.armed found)
  /-- The hit of no breakpoint: no register changes. -/
  | stray {registers : Registers} {bench : Bench} {said : Journal}
      (absent : ∀ entry ∈ entries, entry.address ≠ registers.returnAddress - 5) :
      MapAnswers symbols options entries earlier (.fire registers bench)
        (.fired ⟨none, registers, [], bench.say said⟩)
  /-- The hit of a breakpoint that is not armed: no handler has a part in it. -/
  | unarmed {registers : Registers} {bench : Bench} (entry : TableEntry) (mem : entry ∈ entries)
      (place : entry.address = registers.returnAddress - 5) (rests : ¬ entry.ArmedBy earlier) :
      MapAnswers symbols options entries earlier (.fire registers bench)
        (.fired ⟨some .cave, { registers with returnAddress := entry.slot }, [], bench⟩)
  /-- The hit of an armed breakpoint, after which the replaced code runs.  What is left of
  the hit is what one call of the handler left, but for the return address. -/
  | cave {registers : Registers} {bench : Bench} (entry : TableEntry) {hit : Hit}
      (mem : entry ∈ entries) (place : entry.address = registers.returnAddress - 5)
      (armed : entry.ArmedBy earlier)
      (called : entry.handler (entry.hit symbols options registers bench) = (.cave, hit)) :
      MapAnswers symbols options entries earlier (.fire registers bench)
        (.fired ⟨some .cave, { hit.registers with returnAddress := entry.slot }, hit.notes,
          hit.bench⟩)
  /-- The hit of an armed breakpoint whose handler says where to go on. -/
  | override {registers : Registers} {bench : Bench} (entry : TableEntry) {hit : Hit}
      (mem : entry ∈ entries) (place : entry.address = registers.returnAddress - 5)
      (armed : entry.ArmedBy earlier)
      (called : entry.handler (entry.hit symbols options registers bench) = (.override, hit)) :
      MapAnswers symbols options entries earlier (.fire registers bench)
        (.fired ⟨some .override, hit.registers, hit.notes, hit.bench⟩)

/-- The table is one of the entries once the calls are made. -/
structure Tracks (symbols : Symbols) (options : Options) (entries : List TableEntry)
    (earlier : List TableCall) (t : BreakpointTable) : Prop where
  symbols : t.symbols = symbols
  options : t.options = options
  absent : ∀ address, (∀ entry ∈ entries, entry.address ≠ address) → t.entryAt? address = none
  found : ∀ entry ∈ entries, ∃ armed,
    t.entryAt? entry.address = some { entry with armed } ∧ (armed = true ↔ entry.ArmedBy earlier)

section Tracks
variable {symbols : Symbols} {options : Options} {entries : List TableEntry}
  {earlier : List TableCall} {t : BreakpointTable}

theorem tracks_ofEntries (symbols : Symbols) (options : Options)
    (hentries : entries.Pairwise (·.address ≠ ·.address)) :
    Tracks symbols options entries [] (.ofEntries symbols options entries) where
  symbols := rfl
  options := rfl
  absent address h := by
    refine Option.not_isSome_iff_eq_none.mp fun hfound => ?_
    obtain ⟨entry, hentry, haddress⟩ :=
      (BreakpointTable.isSome_entryAt?_ofEntries symbols options).mp hfound
    exact h entry hentry haddress
  found entry hentry := by
    refine ⟨entry.armed, ?_, ?_⟩
    · exact (BreakpointTable.entryAt?_ofEntries_iff symbols options hentries).mpr ⟨hentry, rfl⟩
    · simp only [TableEntry.ArmedBy, List.not_mem_nil, or_false]

theorem Tracks.answers (h : Tracks symbols options entries earlier t) (call : TableCall) :
    MapAnswers symbols options entries earlier call (t.call call).1 := by
  cases call with
  | arm address =>
      refine .arm ⟨fun hfound => ?_, ?_⟩
      · by_contra habsent
        push Not at habsent
        have hnone := h.absent address habsent
        rw [BreakpointTable.arm, hnone] at hfound
        cases hfound
      · rintro ⟨entry, hentry, rfl⟩
        obtain ⟨armed, hentry, -⟩ := h.found entry hentry
        rw [BreakpointTable.arm, hentry]
        rfl
  | fire registers bench =>
      show MapAnswers symbols options entries earlier (.fire registers bench)
        (.fired (t.fire registers bench))
      by_cases hplace : ∃ entry ∈ entries, entry.address = registers.returnAddress - 5
      · obtain ⟨entry, hmem, hplace⟩ := hplace
        obtain ⟨armed, hfound, harmed⟩ := h.found entry hmem
        have hfound := (congrArg t.entryAt? hplace).symm.trans hfound
        cases armed with
        | false =>
            rw [BreakpointTable.fire_of_unarmed bench hfound rfl]
            exact .unarmed entry hmem hplace fun hby => Bool.false_ne_true (harmed.mpr hby)
        | true =>
            rcases hcalled : entry.handler (entry.hit symbols options registers bench) with
              ⟨resume, hit⟩
            have hgiven : entry.handler (entry.hit t.symbols t.options registers bench) =
                (resume, hit) := by
              rw [h.symbols, h.options]
              exact hcalled
            rw [BreakpointTable.fire_of_armed bench hfound rfl hgiven]
            cases resume with
            | cave => exact .cave entry hmem hplace (harmed.mp rfl) hcalled
            | override => exact .override entry hmem hplace (harmed.mp rfl) hcalled
      · push Not at hplace
        obtain ⟨said, hfired⟩ := BreakpointTable.fire_of_absent bench (h.absent _ hplace)
        rw [hfired]
        exact .stray hplace

theorem Tracks.step (h : Tracks symbols options entries earlier t) (call : TableCall) :
    Tracks symbols options entries (earlier ++ [call]) (t.call call).2 := by
  cases call with
  | fire registers bench =>
      refine { h with found := fun entry hentry => ?_ }
      obtain ⟨armed, hfound, harmed⟩ := h.found entry hentry
      refine ⟨armed, hfound, harmed.trans ?_⟩
      simp only [TableEntry.ArmedBy, List.mem_append, List.mem_singleton, reduceCtorEq, or_false]
  | arm address =>
      refine ⟨h.symbols, h.options, fun other hother => ?_, fun entry hentry => ?_⟩
      · show (t.arm address).2.entryAt? other = none
        rw [BreakpointTable.entryAt?_arm, h.absent other hother]
        rfl
      · obtain ⟨armed, hfound, harmed⟩ := h.found entry hentry
        refine ⟨armed || decide (entry.address = address), ?_, ?_⟩
        · show (t.arm address).2.entryAt? entry.address = _
          rw [BreakpointTable.entryAt?_arm, hfound, Option.map_some, BreakpointTable.armedAt]
          by_cases haddress : entry.address = address <;> simp [haddress]
        · simp only [Bool.or_eq_true, harmed, decide_eq_true_eq, TableEntry.ArmedBy,
            List.mem_append, List.mem_singleton, TableCall.arm.injEq, or_assoc]

theorem Tracks.calls_answer (h : Tracks symbols options entries earlier t)
    (calls : List TableCall) {index : Nat} {call : TableCall} (hcall : calls[index]? = some call) :
    ∃ answer, (t.calls calls)[index]? = some answer ∧
      MapAnswers symbols options entries (earlier ++ calls.take index) call answer := by
  induction calls generalizing earlier t index with
  | nil => cases hcall
  | cons first rest ih =>
      cases index with
      | zero =>
          obtain rfl : first = call := Option.some.inj hcall
          refine ⟨_, rfl, ?_⟩
          rw [List.take_zero, List.append_nil]
          exact h.answers first
      | succ index =>
          obtain ⟨answer, hanswer, hanswers⟩ := ih (h.step first) hcall
          refine ⟨answer, hanswer, ?_⟩
          rwa [List.append_assoc] at hanswers

end Tracks

namespace BreakpointTable

theorem length_calls (t : BreakpointTable) (calls : List TableCall) :
    (t.calls calls).length = calls.length := by
  induction calls generalizing t with
  | nil => rfl
  | cons first rest ih => exact congrArg Nat.succ (ih _)

/-- A table of entries at addresses that differ answers every sequence of calls as a map
from addresses to entries does. -/
theorem calls_answer_as_a_map (symbols : Symbols) (options : Options) {entries : List TableEntry}
    (hentries : entries.Pairwise (·.address ≠ ·.address)) (calls : List TableCall) :
    ((ofEntries symbols options entries).calls calls).length = calls.length ∧
    ∀ (index : Nat) (call : TableCall), calls[index]? = some call →
      ∃ answer, ((ofEntries symbols options entries).calls calls)[index]? = some answer ∧
        MapAnswers symbols options entries (calls.take index) call answer := by
  refine ⟨length_calls _ calls, fun index call hcall => ?_⟩
  have hstart := tracks_ofEntries symbols options hentries
  exact hstart.calls_answer calls hcall

/-! ### Two entries, not in order

A hit whose return address lies behind the end of the address space, before and after its
breakpoint is armed. -/

def sampleEntries : List TableEntry :=
  [{ address := 0xFFFFFFFE, slot := 0x10000040, name := "last", config := .null,
     handler := fun hit => (.override, hit.put .done) },
   { address := 0x401000, slot := 0x10000020, name := "enter", config := .null,
     handler := fun hit => (.cave, hit) }]

def sampleRegisters : Registers := { eax := 7, returnAddress := 3 }

def sampleCalls : List TableCall :=
  [.fire sampleRegisters ⟨{}, []⟩, .arm 0xFFFFFFFE, .fire sampleRegisters ⟨{}, []⟩]

/-- The first hit goes on in the slot, and the second one as the handler says. -/
theorem sample_calls_answer :
    MapAnswers {} {} sampleEntries [] (.fire sampleRegisters ⟨{}, []⟩)
      (.fired ⟨some .cave, { eax := 7, returnAddress := 0x10000040 }, [], ⟨{}, []⟩⟩) ∧
    MapAnswers {} {} sampleEntries (sampleCalls.take 2) (.fire sampleRegisters ⟨{}, []⟩)
      (.fired ⟨some .override, sampleRegisters, [.done], ⟨{}, []⟩⟩) := by
  have hapart : sampleEntries.Pairwise (·.address ≠ ·.address) := by decide
  have hall := (calls_answer_as_a_map {} {} hapart sampleCalls).2
  obtain ⟨first, hfirst, hunarmed⟩ := hall 0 _ rfl
  obtain ⟨second, hsecond, harmed⟩ := hall 2 _ rfl
  cases hfirst
  cases hsecond
  exact ⟨hunarmed, harmed⟩

end BreakpointTable
end CodePatch
