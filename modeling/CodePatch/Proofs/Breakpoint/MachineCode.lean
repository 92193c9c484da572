/-
# What the code of breakpoints does

The three pieces of code of a breakpoint, read as a processor reads them: a
branch is an opcode and a distance, and it reaches the address behind it plus
the distance (`IsBranch`).  The predicates below say this of whole runs of
bytes and do not mention how the bytes were made; the theorems say that what
`MachineCode` makes satisfies them.

`relocated_slot_keeps_flow` reads a slot back byte by byte, for code of any length that
leaves room for the jump back and for addresses that wrap around.

No instruction is executed here.  That the dispatcher leaves the right return
address is the business of `BreakpointTable.fire`.
-/
import Mathlib
import CodePatch.Breakpoint.MachineCode

namespace CodePatch

theorem wordBytes_ofLittleEndian {bytes : List UInt8} (h : bytes.length = 4) :
    wordBytes (UInt32.ofNat (ofLittleEndian bytes)) = bytes := by
  have hback := littleEndian_ofLittleEndian bytes
  have hbound : ofLittleEndian bytes < 2 ^ 32 := by
    have hmod := ofLittleEndian_littleEndian bytes.length (ofLittleEndian bytes)
    rw [hback, h] at hmod
    rw [hmod]
    exact Nat.mod_lt _ (by decide)
  rw [h] at hback
  rw [wordBytes, UInt32.toNat_ofNat_of_lt' hbound]
  exact hback

@[simp] theorem length_wordBytes (value : UInt32) : (wordBytes value).length = 4 :=
  length_littleEndian 4 _

namespace MachineCode

/-! ## Reading code -/

/-- The bytes are a branch at `address` that reaches `target`. -/
def IsBranch (opcode : UInt8) (address target : UInt32) (bytes : List UInt8) : Prop :=
  ∃ distance, bytes = opcode :: wordBytes distance ∧ address + 5 + distance = target

/-- The `size` bytes at `address` are a call of `stub`, and no-ops behind it. -/
def IsRedirect (address stub : UInt32) (size : Nat) (bytes : List UInt8) : Prop :=
  ∃ call, IsBranch 0xE8 address stub call ∧ bytes = call ++ List.replicate (size - 5) 0x90

/-- The bytes are a return that drops `stackClear` bytes of arguments. -/
def IsReturn (stackClear : UInt16) (bytes : List UInt8) : Prop :=
  (stackClear = 0 ∧ bytes = [0xC3]) ∨
    (stackClear ≠ 0 ∧ bytes = 0xC2 :: littleEndian 2 stackClear.toNat)

/-- The bytes at `stub` save the registers, push four bytes that name a table,
call `dispatcher`, restore the registers and return; what is left are traps. -/
def IsEntryStub (stub dispatcher : UInt32) (stackClear : UInt16) (bytes : List UInt8) : Prop :=
  ∃ table call back, table.length = 4 ∧ IsBranch 0xE8 (stub + 8) dispatcher call ∧
    IsReturn stackClear back ∧
    bytes = [0x60, 0x9C, 0x54, 0x68] ++ table ++ call ++ [0x89, 0xC4, 0x9D, 0x61] ++ back ++
      List.replicate (32 - (17 + back.length)) 0xCC

/-- Code from `address` does at `slot` what it did there: a call or a jump that
it starts with reaches the same target, and everything else is the same. -/
inductive IsMoved (address slot : UInt32) : List UInt8 → List UInt8 → Prop where
  | branch {opcode : UInt8} {target : UInt32} {old new : List UInt8} (rest : List UInt8)
      (kind : opcode = 0xE8 ∨ opcode = 0xE9) (before : IsBranch opcode address target old)
      (after : IsBranch opcode slot target new) : IsMoved address slot (old ++ rest) (new ++ rest)
  | plain {bytes : List UInt8} (call : bytes.head? ≠ some 0xE8) (jump : bytes.head? ≠ some 0xE9) :
      IsMoved address slot bytes bytes

/-- The bytes at `slot` are the code `original` moved there from `address`, a
jump to what was behind it, and traps. -/
def IsSlot (address slot : UInt32) (original bytes : List UInt8) : Prop :=
  ∃ code jump, IsMoved address slot original code ∧
    IsBranch 0xE9 (slot + UInt32.ofNat original.length)
      (address + UInt32.ofNat original.length) jump ∧
    bytes = code ++ jump ++ List.replicate (32 - (original.length + 5)) 0xCC

/-! ## The code that is made -/

theorem isBranch_branch (opcode : UInt8) (address target : UInt32) :
    IsBranch opcode address target (branch opcode address target) := by
  refine ⟨_, rfl, ?_⟩
  show address + 5 + (target - (address + 5)) = target
  rw [UInt32.add_comm, UInt32.sub_add_cancel]

theorem isRedirect_redirect (address stub : UInt32) (size : Nat) :
    IsRedirect address stub size (redirect address stub size) :=
  ⟨_, isBranch_branch callOpcode address stub, rfl⟩

theorem isReturn_returnBytes (stackClear : UInt16) :
    IsReturn stackClear (returnBytes stackClear) := by
  unfold returnBytes
  split
  · rename_i h
    exact Or.inl ⟨h, rfl⟩
  · rename_i h
    exact Or.inr ⟨h, rfl⟩

theorem length_returnBytes (stackClear : UInt16) : (returnBytes stackClear).length ≤ 3 := by
  unfold returnBytes
  split <;> simp

theorem isEntryStub_entryStub (stub table dispatcher : UInt32) (stackClear : UInt16) :
    IsEntryStub stub dispatcher stackClear (entryStub stub table dispatcher stackClear) := by
  refine ⟨wordBytes table, _, _, length_wordBytes table, isBranch_branch _ (stub + 8) dispatcher,
    isReturn_returnBytes stackClear, ?_⟩
  have hlen : (saveBytes table ++ branch callOpcode (stub + 8) dispatcher ++ restoreBytes ++
      returnBytes stackClear).length = 17 + (returnBytes stackClear).length := by
    simp [saveBytes, restoreBytes, callLength]
    omega
  rw [entryStub, padded, hlen]
  rfl

theorem length_entryStub (stub table dispatcher : UInt32) (stackClear : UInt16) :
    (entryStub stub table dispatcher stackClear).length = stubLength := by
  have := length_returnBytes stackClear
  simp [entryStub, padded, saveBytes, restoreBytes, callLength, stubLength]
  omega

/-- Moved code reaches what it reached, if a branch that it starts with is
whole. -/
theorem isMoved_moved (address slot : UInt32) {original : List UInt8}
    (h : callLength ≤ original.length) :
    IsMoved address slot original (moved address slot original) := by
  obtain ⟨opcode, a, b, c, d, rest, rfl⟩ : ∃ opcode a b c d rest,
      original = opcode :: a :: b :: c :: d :: rest := by
    match original, h with
    | opcode :: a :: b :: c :: d :: rest, _ => exact ⟨opcode, a, b, c, d, rest, rfl⟩
  simp only [moved]
  split
  · rename_i hop
    have hword : wordBytes (UInt32.ofNat (ofLittleEndian [a, b, c, d])) = [a, b, c, d] :=
      wordBytes_ofLittleEndian rfl
    have hreach : ∀ k : UInt32, slot + 5 + (k + (address - slot)) = address + 5 + k := by
      intro k
      rw [UInt32.add_comm k, ← UInt32.add_assoc, UInt32.add_assoc slot, UInt32.add_comm 5,
        ← UInt32.add_assoc, UInt32.add_comm slot, UInt32.sub_add_cancel]
    have hbefore : IsBranch opcode address
        (address + 5 + UInt32.ofNat (ofLittleEndian [a, b, c, d])) (opcode :: [a, b, c, d]) :=
      ⟨_, by rw [hword], rfl⟩
    exact .branch rest hop hbefore ⟨_, rfl, hreach _⟩
  · rename_i hop
    refine .plain ?_ ?_ <;> simp only [List.head?_cons, ne_eq, Option.some.injEq]
    · exact fun h => hop (Or.inl h)
    · exact fun h => hop (Or.inr h)

theorem isSlot_relocatedSlot (address slot : UInt32) {original : List UInt8}
    (h : callLength ≤ original.length) :
    IsSlot address slot original (relocatedSlot original address slot) := by
  refine ⟨_, _, isMoved_moved address slot h, isBranch_branch _ _ _, ?_⟩
  simp only [relocatedSlot, padded, List.length_append, length_moved, length_branch]
  rfl

theorem length_relocatedSlot (address slot : UInt32) {original : List UInt8}
    (h : original.length + callLength ≤ slotLength) :
    (relocatedSlot original address slot).length = slotLength := by
  simp [relocatedSlot, padded, length_moved]
  omega

theorem length_padded {length : Nat} {bytes : List UInt8} (h : bytes.length ≤ length) :
    (padded length bytes).length = length := by
  simp [padded]
  omega

/-! ## A slot, byte by byte

`IsSlot` is about code that is at least as long as a branch.  Byte by byte the same can be
said of any code that leaves room for the jump back: a shorter one has no branch to keep. -/

/-- The code starts with a whole call or jump. -/
def StartsWithBranch (code : List UInt8) : Prop :=
  5 ≤ code.length ∧ (code.head? = some 0xE8 ∨ code.head? = some 0xE9)

/-- Where the branch at `offset` leads in code that lies at `address`. -/
def targetAt (code : List UInt8) (offset : Nat) (address : UInt32) : UInt32 :=
  address + UInt32.ofNat (offset + 5) +
    UInt32.ofNat (ofLittleEndian ((code.drop (offset + 1)).take 4))

theorem ofLittleEndian_wordBytes (value : UInt32) :
    UInt32.ofNat (ofLittleEndian (wordBytes value)) = value := by
  have hback : ofLittleEndian (wordBytes value) = value.toNat := by
    rw [wordBytes, ofLittleEndian_littleEndian]
    exact Nat.mod_eq_of_lt value.toNat_lt
  rw [hback, UInt32.ofNat_toNat]

theorem targetAt_of_isBranch {opcode : UInt8} {address target : UInt32}
    {front branch : List UInt8} (back : List UInt8)
    (h : IsBranch opcode (address + UInt32.ofNat front.length) target branch) :
    (front ++ branch ++ back)[front.length]? = some opcode ∧
      targetAt (front ++ branch ++ back) front.length address = target := by
  obtain ⟨distance, rfl, rfl⟩ := h
  constructor
  · simp
  · have hword : ((front ++ opcode :: wordBytes distance ++ back).drop (front.length + 1)).take 4 =
        wordBytes distance := by
      rw [List.append_assoc, ← List.drop_drop, List.drop_left]
      exact List.take_left' (length_wordBytes distance)
    have hplace : address + UInt32.ofNat (front.length + 5) =
        address + UInt32.ofNat front.length + 5 := by
      rw [UInt32.ofNat_add, ← UInt32.add_assoc]
      rfl
    rw [targetAt, hword, ofLittleEndian_wordBytes, hplace]

theorem targetAt_start {opcode : UInt8} {address target : UInt32} {branch : List UInt8}
    (back : List UInt8) (h : IsBranch opcode address target branch) :
    targetAt (branch ++ back) 0 address = target := by
  have hzero : address + UInt32.ofNat ([] : List UInt8).length = address := UInt32.add_zero address
  rw [← hzero] at h
  exact (targetAt_of_isBranch back h).2

/-- Moved code starts with a branch to the same target, or is the same. -/
theorem moved_cases (address slot : UInt32) (original : List UInt8) :
    (StartsWithBranch original ∧ ∃ opcode target old new rest,
      IsBranch opcode address target old ∧ IsBranch opcode slot target new ∧
      original = old ++ rest ∧ moved address slot original = new ++ rest) ∨
    (¬ StartsWithBranch original ∧ moved address slot original = original) := by
  by_cases hlength : 5 ≤ original.length
  · have hmoved := isMoved_moved address slot hlength
    generalize moved address slot original = code at hmoved
    cases hmoved with
    | @branch opcode target old new rest kind before after =>
        refine Or.inl ⟨⟨hlength, ?_⟩, opcode, target, old, new, rest, before, after, rfl, rfl⟩
        obtain ⟨distance, rfl, -⟩ := before
        exact kind.imp (congrArg some) (congrArg some)
    | plain call jump => exact Or.inr ⟨fun h => h.2.elim call jump, rfl⟩
  · refine Or.inr ⟨fun h => hlength h.1, ?_⟩
    match original, hlength with
    | [], _ | [_], _ | [_, _], _ | [_, _, _], _ | [_, _, _, _], _ => rfl
    | _ :: _ :: _ :: _ :: _ :: _, hlength => simp at hlength

theorem length_of_isBranch {opcode : UInt8} {address target : UInt32} {bytes : List UInt8}
    (h : IsBranch opcode address target bytes) : bytes.length = 5 := by
  obtain ⟨distance, rfl, -⟩ := h
  exact congrArg Nat.succ (length_wordBytes distance)

/-- Only the distance of a branch at the start is changed where code is moved. -/
theorem getElem?_moved (address slot : UInt32) (original : List UInt8) {i : Nat}
    (h : i = 0 ∨ 5 ≤ i ∨ ¬ StartsWithBranch original) :
    (moved address slot original)[i]? = original[i]? := by
  rcases moved_cases address slot original with
    ⟨hstarts, opcode, target, old, new, rest, hold, hnew, rfl, hmoved⟩ | ⟨-, hmoved⟩
  · rw [hmoved]
    rcases h with rfl | hbehind | hnot
    · obtain ⟨_, rfl, -⟩ := hold
      obtain ⟨_, rfl, -⟩ := hnew
      rfl
    · have hold := length_of_isBranch hold
      have hnew := length_of_isBranch hnew
      rw [List.getElem?_append_right (hnew ▸ hbehind), List.getElem?_append_right (hold ▸ hbehind),
        hold, hnew]
    · exact absurd hstarts hnot
  · rw [hmoved]

/-- The slot of code that leaves room for a jump: the code, with a call or jump at its start
still reaching its target, then a jump to what was behind the code, then traps. -/
theorem relocated_slot_keeps_flow (address slot : UInt32) {original : List UInt8}
    (h : original.length ≤ 27) :
    let bytes := relocatedSlot original address slot
    let n := original.length
    bytes.length = 32 ∧
    (∀ i < n, i = 0 ∨ 5 ≤ i ∨ ¬ StartsWithBranch original → bytes[i]? = original[i]?) ∧
    (StartsWithBranch original → targetAt bytes 0 slot = targetAt original 0 address) ∧
    bytes[n]? = some 0xE9 ∧ targetAt bytes n slot = address + UInt32.ofNat n ∧
    ∀ i, n + 5 ≤ i → i < 32 → bytes[i]? = some 0xCC := by
  intro bytes n
  have hlength : (moved address slot original).length = n := length_moved address slot original
  have hbytes : bytes = moved address slot original ++
      branch 0xE9 (slot + UInt32.ofNat n) (address + UInt32.ofNat n) ++
      List.replicate (32 - (n + 5)) 0xCC := by
    simp only [bytes, relocatedSlot, padded, List.length_append, length_moved, length_branch]
    rfl
  have hjump := isBranch_branch 0xE9 (slot + UInt32.ofNat n) (address + UInt32.ofNat n)
  have hcount := length_of_isBranch hjump
  generalize branch 0xE9 (slot + UInt32.ofNat n) (address + UInt32.ofNat n) = jump at *
  have hback := targetAt_of_isBranch (List.replicate (32 - (n + 5)) 0xCC) (hlength.symm ▸ hjump)
  rw [← hbytes, hlength] at hback
  refine ⟨length_relocatedSlot address slot (Nat.add_le_add_right h 5), fun i hi hkept => ?_,
    fun hstarts => ?_, hback.1, hback.2, fun i hlow hhigh => ?_⟩
  · rw [hbytes, List.append_assoc, List.getElem?_append_left (hlength.symm ▸ hi)]
    exact getElem?_moved address slot original hkept
  · rcases moved_cases address slot original with
      ⟨-, opcode, target, old, new, rest, hold, hnew, horiginal, hmoved⟩ | ⟨hnot, -⟩
    · rw [hbytes, hmoved, List.append_assoc, List.append_assoc, horiginal,
        targetAt_start rest hold]
      exact targetAt_start _ hnew
    · exact absurd hstarts hnot
  · have hfront : (moved address slot original ++ jump).length = n + 5 := by
      rw [List.length_append, hlength, hcount]
    rw [hbytes, List.getElem?_append_right (hfront ▸ hlow), hfront]
    exact List.getElem?_replicate_of_lt (by omega)

/-- A call over the end of the address space, and an instruction behind it. -/
theorem sample_slot_keeps_flow :
    targetAt (relocatedSlot [0xE8, 0x10, 0, 0, 0, 0x90] 0xFFFFFFF0 0x10000020) 0 0x10000020 = 5 ∧
    targetAt (relocatedSlot [0xE8, 0x10, 0, 0, 0, 0x90] 0xFFFFFFF0 0x10000020) 6 0x10000020 =
      0xFFFFFFF6 := by
  have hroom : [0xE8, 0x10, 0, 0, 0, (0x90 : UInt8)].length ≤ 27 := by decide
  obtain ⟨-, -, hcall, -, hback, -⟩ := relocated_slot_keeps_flow 0xFFFFFFF0 0x10000020 hroom
  have htarget : targetAt [0xE8, 0x10, 0, 0, 0, 0x90] 0 0xFFFFFFF0 = 5 := by decide
  exact ⟨(hcall ⟨by decide, Or.inl rfl⟩).trans htarget, hback⟩

end MachineCode
end CodePatch
