/-
# Binary hacks

A binary hack replaces the bytes at one or more addresses by code.  It may say
which bytes it expects to find, as a code string too, and is left alone where
it finds others.  A title, if there is one, stands before the name in messages.
-/
import CodePatch.TargetAddress

namespace CodePatch

/-- An entry for a binary hack. -/
structure Binhack where
  name : String
  title : Option String := none
  addresses : List TargetAddress
  code : String
  expected : Option String := none
  ignore : Bool := false
deriving DecidableEq, Repr

namespace Binhack

/-- How messages name the entry. -/
def label (hack : Binhack) : String :=
  match hack.title with
  | some title => s!"{title} ({hack.name})"
  | none => hack.name

/-- The number of addresses of the entries that are not to be ignored. -/
def sites (hacks : List Binhack) : Nat :=
  ((hacks.filter (!·.ignore)).map (·.addresses.length)).foldr (· + ·) 0

/-- The binary hack that an entry of a configuration describes. -/
def ofJson (name : String) (entry : Json) : Except ConfigError Binhack :=
  match entry with
  | .object _ =>
    match (entry.field? "code").bind Json.joinedText? with
    | none => .error (.binhack name .missingCode)
    | some code => do
      let addresses ← TargetAddress.ofEntry (.binhack name .missingAddress) entry
      return {
        name
        title := (entry.field? "title").bind Json.string?
        addresses
        code
        expected := (entry.field? "expected").bind Json.joinedText?
        ignore := ((entry.field? "ignore").bind Json.bool?).getD false }
  | _ => .error (.binhack name .notObject)

end Binhack
end CodePatch
