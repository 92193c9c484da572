/-
# Configurations

A configuration is an object with up to four blocks of named entries:

    { "options":     { "lives": { "type": "u8", "val": 8 } },
      "codecaves":   { "protection": "rx", "helper": "55 8B EC" },
      "binhacks":    { "skip_intro": { "addr": "Rx1234", "code": "EB" } },
      "breakpoints": { "file_size": { "addr": "0x401000", "cavesize": 5 } } }

Entries keep the order in which they are written.  An entry that makes no sense
is reported and left out; only a root that is no object is an error, and an
option whose integer overflows.
-/
import CodePatch.Binhack.Basic
import CodePatch.Breakpoint.Basic
import CodePatch.Cave.Basic
import CodePatch.Json.Reader
import CodePatch.Options

namespace CodePatch

/-- Everything that is to be applied. -/
structure Config where
  options : Options := {}
  caves : List Cave := []
  binhacks : List Binhack := []
  breakpoints : List Breakpoint := []
deriving Repr, Inhabited

namespace Config

def isEmpty (c : Config) : Bool :=
  c.options.isEmpty && c.caves.isEmpty && c.binhacks.isEmpty && c.breakpoints.isEmpty

/-- The entries of a block, if there are any. -/
def block (root : Json) (key : String) : List (String × Json) × Journal :=
  match root.field? key with
  | none => ([], [])
  | some (.object fields) => (fields, [])
  | some _ => ([], [.warn s!"Ignoring '{key}': not an object"])

/-- The entries that make sense, as `parse` reads them, and what is said about
the others. -/
def entries {α : Type} (parse : String → Json → Except ConfigError α) :
    List (String × Json) → List α × Journal
  | [] => ([], [])
  | (name, value) :: rest =>
    let (later, said) := entries parse rest
    match parse name value with
    | .ok entry => (entry :: later, said)
    | .error e => (later, .warn s!"Skipping {(PatchError.invalidConfig e).message}" :: said)

/-- The field of the block of caves that is the access class of caves which name
none. -/
def accessKey : String := "protection"

/-- The access class of caves which name none. -/
def givenAccess (caves : List (String × Json)) : AccessClass × Journal :=
  match caves.lookup accessKey with
  | none => (.rwx, [])
  | some (.string access) =>
    match AccessClass.ofName? access.toList with
    | some a => (a, [])
    | none => (.rwx, [.warn s!"Unknown default cave protection '{access}', using rwx"])
  | some _ => (.rwx, [.warn "Default cave protection is not a string, using rwx"])

/-- The caves of a block. -/
def cavesOf (fields : List (String × Json)) : List Cave × Journal :=
  let (given, said) := givenAccess fields
  let (caves, more) :=
    entries (fun name => Cave.ofJson name given) (fields.filter (·.1 ≠ accessKey))
  (caves, said ++ more)

/-- The options of an object. -/
def optionsOf (root : Json) : Except Overflow (Options × Journal) :=
  let (fields, said) := block root "options"
  (Options.addBlock {} fields).map fun (_, options, more) => (options, said ++ more)

/-- The configuration in the blocks of an object. -/
def ofBlocks (root : Json) : Except Overflow (Config × Journal) :=
  (optionsOf root).map fun (options, said₁) =>
    let (caveFields, said₂) := block root "codecaves"
    let (caves, said₃) := cavesOf caveFields
    let (binhackFields, said₄) := block root "binhacks"
    let (binhacks, said₅) := entries Binhack.ofJson binhackFields
    let (breakpointFields, said₆) := block root "breakpoints"
    let (breakpoints, said₇) := entries Breakpoint.ofJson breakpointFields
    ({ options, caves, binhacks, breakpoints },
      said₁ ++ said₂ ++ said₃ ++ said₄ ++ said₅ ++ said₆ ++ said₇)

/-- The configuration that a document describes. -/
def ofJson (root : Json) : Except PatchError Config × Journal :=
  match root with
  | .object _ =>
    match ofBlocks root with
    | .ok (config, said) => (.ok config, said)
    | .error kind => (.error (.overflow kind), [])
  | _ => (.error (.invalidConfig .rootNotObject), [])

/-- The configuration in a file; `none` is a file that does not exist. -/
def ofFile (content : Option (List UInt8)) : Except PatchError Config × Journal :=
  match content with
  | none => (.error (.unreadableFile true), [])
  | some bytes =>
    match String.fromUTF8? ⟨bytes.toArray⟩ with
    | none => (.error (.unreadableFile false), [])
    | some text =>
      match Json.read? text with
      | none => (.error .notJson, [])
      | some root => ofJson root

end Config
end CodePatch
