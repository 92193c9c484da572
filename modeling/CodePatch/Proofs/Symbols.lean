/-
# Names and their addresses

A name is bound once: what is bound stays bound to the same address, whatever is
bound behind it (`Extends`).

A name is looked up as `lookedUp name`, which is the name itself except behind
the alias of code caves.  Binding a name does not go through that: a name behind
the alias is bound as it stands, and then nobody finds it, since it is looked up
as another one (`alias_is_bound_and_not_found`).  So names that are looked up as
they stand are bound once and found ever after, and binding any other one is
without effect (`names_are_bound_once`).
-/
import CodePatch.Proofs.Cave.Names

namespace CodePatch.Symbols

/-- What is bound stays bound to the same address. -/
def Extends (s s' : Symbols) : Prop :=
  ∀ name address, s.bound? name = some address → s'.bound? name = some address

section Extends
variable {s s' s'' : Symbols}

theorem Extends.refl (s : Symbols) : s.Extends s :=
  fun _ _ h => h

theorem Extends.trans (h : s.Extends s') (h' : s'.Extends s'') : s.Extends s'' :=
  fun name address hbound => h' name address (h name address hbound)

theorem extends_bind (s : Symbols) (name : String) (address : UInt32) :
    s.Extends (s.bind name address) := by
  intro other bound h
  rw [bound?_bind, if_neg, h]
  rintro ⟨rfl, hfree⟩
  rw [isFree, h] at hfree
  cases hfree

theorem extends_bindAll (s : Symbols) (names : List (String × UInt32)) :
    s.Extends (s.bindAll names).2.1 := by
  induction names generalizing s with
  | nil => exact .refl s
  | cons first rest ih => exact (extends_bind s first.1 first.2).trans (ih _)

end Extends

/-! ## Looking names up -/

/-- The name that is looked up for a name. -/
def lookedUp (name : String) : String :=
  match Text.after? caveAlias name.toList with
  | some cave => caveName (String.ofList cave)
  | none => name

theorem get?_eq_bound? (s : Symbols) (name : String) : s.get? name = s.bound? (lookedUp name) := by
  unfold get? lookedUp
  cases Text.after? caveAlias name.toList with
  | some cave => rfl
  | none => rfl

theorem lookedUp_caveName (cave : String) : lookedUp (caveName cave) = caveName cave := by
  rw [lookedUp, after?_caveAlias_caveName]

theorem lookedUp_lookedUp (name : String) : lookedUp (lookedUp name) = lookedUp name := by
  cases h : Text.after? caveAlias name.toList with
  | some cave =>
      have hcave : lookedUp name = caveName (String.ofList cave) := by rw [lookedUp, h]
      rw [hcave, lookedUp_caveName]
  | none =>
      have hname : lookedUp name = name := by rw [lookedUp, h]
      rw [hname, hname]

theorem Extends.get? {s s' : Symbols} (h : s.Extends s') {name : String} {address : UInt32}
    (hfound : s.get? name = some address) : s'.get? name = some address := by
  rw [get?_eq_bound?] at hfound ⊢
  exact h _ _ hfound

/-! ## Registering -/

/-- The ways in which names get bound. -/
inductive Registration where
  | name (name : String) (address : UInt32)
  | cave (cave : String) (address : UInt32)
  | exports (module : String) (functions : List (String × UInt32))

/-- The symbols after a registration. -/
def register (s : Symbols) : Registration → Symbols
  | .name name address => s.bind name address
  | .cave cave address => s.bind (caveName cave) address
  | .exports module functions => (s.bindExports module functions).2.1

def registerAll (s : Symbols) (list : List Registration) : Symbols :=
  list.foldl register s

theorem extends_register (s : Symbols) (registration : Registration) :
    s.Extends (s.register registration) := by
  cases registration with
  | name name address => exact extends_bind s name address
  | cave cave address => exact extends_bind s (caveName cave) address
  | exports module functions => exact extends_bindAll s _

theorem extends_registerAll (s : Symbols) (list : List Registration) :
    s.Extends (s.registerAll list) := by
  induction list generalizing s with
  | nil => exact .refl s
  | cons first rest ih => exact (extends_register s first).trans (ih _)

theorem get?_bind_of_ne {s : Symbols} {name other : String} (h : lookedUp other ≠ name)
    (address : UInt32) : (s.bind name address).get? other = s.get? other := by
  rw [get?_eq_bound?, get?_eq_bound?, bound?_bind, if_neg fun both => h both.1]

/-- Whatever is registered, in whatever order: a name that is looked up as it stands is free
if and only if it is not found, and once it is bound it is found at its address ever after.
Binding a name that is not free changes what is found for no name, and neither does
binding one that is looked up as another name. -/
theorem names_are_bound_once (list : List Registration) (name : String) (address : UInt32) :
    let s := ({} : Symbols).registerAll list
    (lookedUp name = name →
      (s.isFree name = true ↔ s.get? name = none) ∧
      (s.isFree name = true → ∀ later,
        ((s.bind name address).registerAll later).get? name = some address)) ∧
    (s.isFree name = false → ∀ other, (s.bind name address).get? other = s.get? other) ∧
    (lookedUp name ≠ name → ∀ other, (s.bind name address).get? other = s.get? other) ∧
    ∀ other found, s.get? other = some found → ∀ later,
      (s.registerAll later).get? other = some found := by
  intro s
  refine ⟨fun hname => ⟨?_, fun hfree later => ?_⟩, ?_, ?_, ?_⟩
  · rw [get?_eq_bound?, hname]
    exact Option.isNone_iff_eq_none
  · refine (extends_registerAll _ later).get? ?_
    rw [get?_eq_bound?, hname, bound?_bind, if_pos ⟨rfl, hfree⟩]
  · intro hbound other
    rw [get?_eq_bound?, get?_eq_bound?, bound?_bind, if_neg]
    rintro ⟨-, hfree⟩
    exact Bool.false_ne_true (hbound.symm.trans hfree)
  · intro halias other
    refine get?_bind_of_ne ?_ address
    rintro rfl
    exact halias (lookedUp_lookedUp other)
  · intro other found hfound later
    exact (extends_registerAll s later).get? hfound

/-- A cave and an export are registered, and then a name twice. -/
theorem sample_names_are_bound_once :
    let s := ({} : Symbols).registerAll [.cave "data" 5, .exports "kernel32" [("Sleep", 7)]]
    s.get? "entry" = none ∧
    ((s.bind "entry" 9).registerAll [.name "entry" 11]).get? "entry" = some 9 ∧
    (s.bind "kernel32:Sleep" 8).get? "codecave:data" = some 5 := by
  intro s
  obtain ⟨hentry, -, -, -⟩ := names_are_bound_once
    [.cave "data" 5, .exports "kernel32" [("Sleep", 7)]] "entry" 9
  obtain ⟨hfree, hfound⟩ := hentry rfl
  obtain ⟨-, htaken, -, -⟩ := names_are_bound_once
    [.cave "data" 5, .exports "kernel32" [("Sleep", 7)]] "kernel32:Sleep" 8
  exact ⟨hfree.mp rfl, hfound rfl [.name "entry" 11], htaken rfl "codecave:data"⟩

/-- A name behind the alias is free and is bound, but not found; and once the cave is there,
it is found at the cave's address and still free. -/
theorem alias_is_bound_and_not_found :
    (({} : Symbols).isFree "codecave:data" = true ∧
      (({} : Symbols).bind "codecave:data" 5).get? "codecave:data" = none) ∧
    ((({} : Symbols).register (.cave "data" 5)).get? "codecave:data" = some 5 ∧
      (({} : Symbols).register (.cave "data" 5)).isFree "codecave:data" = true) :=
  ⟨⟨rfl, rfl⟩, rfl, rfl⟩

end CodePatch.Symbols
