/-
# Breakpoint tables

The breakpoints of one batch by address, with what their handlers may refer to.
A breakpoint is armed once its redirect is written; until then a hit just goes
on in its slot.

A table is made from entries in any order and keeps them sorted, so that the
entry for a hit can be found by halving.
-/
import CodePatch.Breakpoint.Hit

namespace CodePatch

/-- An installed breakpoint. -/
structure TableEntry where
  address : UInt32
  /-- Where the bytes that were at the address are. -/
  slot : UInt32
  name : String
  config : Json
  handler : Handler
  armed : Bool := false

namespace TableEntry

/-- Puts an entry before the first one whose address is not lower. -/
def insert (entry : TableEntry) : List TableEntry → List TableEntry
  | [] => [entry]
  | first :: rest =>
    if entry.address ≤ first.address then entry :: first :: rest
    else first :: insert entry rest

/-- The entries by increasing address; those at one address stay in their order. -/
def sort (entries : List TableEntry) : List TableEntry :=
  entries.foldr insert []

theorem perm_insert (entry : TableEntry) (entries : List TableEntry) :
    (insert entry entries).Perm (entry :: entries) := by
  induction entries with
  | nil => exact .refl _
  | cons first rest ih =>
      rw [insert]
      split
      · exact .refl _
      · exact (ih.cons first).trans (.swap entry first rest)

/-- Sorting loses no entry and makes none up. -/
theorem perm_sort (entries : List TableEntry) : (sort entries).Perm entries := by
  induction entries with
  | nil => exact .refl _
  | cons entry rest ih => exact (perm_insert entry (sort rest)).trans (ih.cons entry)

theorem pairwise_insert (entry : TableEntry) {entries : List TableEntry}
    (h : entries.Pairwise (·.address ≤ ·.address)) :
    (insert entry entries).Pairwise (·.address ≤ ·.address) := by
  induction entries with
  | nil => exact List.pairwise_singleton ..
  | cons first rest ih =>
      obtain ⟨hfirst, hrest⟩ := List.pairwise_cons.mp h
      rw [insert]
      split
      · rename_i hle
        refine List.pairwise_cons.mpr ⟨fun other hother => ?_, h⟩
        rcases List.mem_cons.mp hother with rfl | hother
        · exact hle
        · exact UInt32.le_trans hle (hfirst other hother)
      · rename_i hnot
        refine List.pairwise_cons.mpr ⟨fun other hother => ?_, ih hrest⟩
        rcases List.mem_cons.mp ((perm_insert entry rest).mem_iff.mp hother) with rfl | hother
        · exact (UInt32.le_total first.address other.address).resolve_right hnot
        · exact hfirst other hother

theorem pairwise_sort (entries : List TableEntry) :
    (sort entries).Pairwise (·.address ≤ ·.address) := by
  induction entries with
  | nil => exact List.Pairwise.nil
  | cons entry rest ih => exact pairwise_insert entry ih

/-- The entry at `address` among sorted ones.  The one in the middle tells in which
half it is; no more than `steps` halves are looked at, and as many steps as there
are entries are enough. -/
def search (address : UInt32) : Nat → List TableEntry → Option TableEntry
  | 0, _ => none
  | steps + 1, entries =>
    let half := entries.length / 2
    match entries.drop half with
    | [] => none
    | middle :: above =>
      if middle.address = address then some middle
      else if middle.address < address then search address steps above
      else search address steps (entries.take half)

/-- The search looks at addresses only. -/
theorem search_map {f : TableEntry → TableEntry} (hf : ∀ e, (f e).address = e.address)
    (address : UInt32) (steps : Nat) (entries : List TableEntry) :
    search address steps (entries.map f) = (search address steps entries).map f := by
  induction steps generalizing entries with
  | zero => rfl
  | succ steps ih =>
      simp only [search, List.length_map, ← List.map_drop, ← List.map_take]
      cases entries.drop (entries.length / 2) with
      | nil => rfl
      | cons middle above =>
          simp only [List.map_cons, hf, ih]
          split
          · rfl
          · split <;> rfl

end TableEntry

/-- The breakpoints of a batch, by increasing address. -/
structure BreakpointTable where
  entries : List TableEntry
  sorted : entries.Pairwise (·.address ≤ ·.address)
  symbols : Symbols
  options : Options

/-- What came of a hit. -/
structure Firing where
  /-- `none` if no breakpoint is at the place that was hit. -/
  resume : Option Resume
  registers : Registers
  notes : List Note
  bench : Bench

namespace BreakpointTable

/-- The table of entries in any order. -/
def ofEntries (symbols : Symbols) (options : Options) (entries : List TableEntry) :
    BreakpointTable :=
  ⟨TableEntry.sort entries, TableEntry.pairwise_sort entries, symbols, options⟩

def entryAt? (t : BreakpointTable) (address : UInt32) : Option TableEntry :=
  TableEntry.search address t.entries.length t.entries

/-- Is there an armed breakpoint at `address`? -/
def isArmed (t : BreakpointTable) (address : UInt32) : Bool :=
  (t.entryAt? address).any (·.armed)

/-- The slot of the breakpoint at `address`. -/
def slot? (t : BreakpointTable) (address : UInt32) : Option UInt32 :=
  (t.entryAt? address).map (·.slot)

def size (t : BreakpointTable) : Nat :=
  t.entries.length

def isEmpty (t : BreakpointTable) : Bool :=
  t.entries.isEmpty

/-- The entry once the breakpoint at `address` is armed. -/
def armedAt (address : UInt32) (entry : TableEntry) : TableEntry :=
  if entry.address = address then { entry with armed := true } else entry

@[simp] theorem address_armedAt (address : UInt32) (entry : TableEntry) :
    (armedAt address entry).address = entry.address := by
  unfold armedAt
  split <;> rfl

/-- Arms the breakpoint at `address`, and tells whether there is one. -/
def arm (t : BreakpointTable) (address : UInt32) : Bool × BreakpointTable :=
  ((t.entryAt? address).isSome,
    { t with
      entries := t.entries.map (armedAt address)
      sorted := List.pairwise_map.mpr (by simpa only [address_armedAt] using t.sorted) })

/-- Arming changes nothing but what is armed. -/
theorem entryAt?_arm (t : BreakpointTable) (address other : UInt32) :
    (t.arm address).2.entryAt? other = (t.entryAt? other).map (armedAt address) := by
  simp only [entryAt?, arm, List.length_map]
  exact TableEntry.search_map (address_armedAt address) other _ t.entries

/-- What a handler is given on a hit. -/
def hitOf (t : BreakpointTable) (entry : TableEntry) (registers : Registers) (b : Bench) : Hit where
  name := entry.name
  address := entry.address
  registers
  config := entry.config
  symbols := t.symbols
  options := t.options
  bench := b

/-- Calls the handler of an entry, if it is armed. -/
def callHandler (t : BreakpointTable) (entry : TableEntry) (registers : Registers) (b : Bench) :
    Resume × Hit :=
  if entry.armed then entry.handler (t.hitOf entry registers b)
  else (.cave, t.hitOf entry registers b)

/-- The registers after a hit that goes on as `resume` says. -/
def registersAfter (entry : TableEntry) (registers : Registers) : Resume → Registers
  | .cave => { registers with returnAddress := entry.slot }
  | .override => registers

/-- Handles a hit.  The return address in the registers is behind the call that
was written over the breakpoint. -/
def fire (t : BreakpointTable) (registers : Registers) (b : Bench) : Firing :=
  let address := registers.returnAddress - UInt32.ofNat callLength
  match t.entryAt? address with
  | none => ⟨none, registers, [], b.say [.error s!"No breakpoint at {Text.address address}"]⟩
  | some entry =>
    let (resume, hit) := t.callHandler entry registers b
    ⟨some resume, registersAfter entry hit.registers resume, hit.notes, hit.bench⟩

end BreakpointTable
end CodePatch
