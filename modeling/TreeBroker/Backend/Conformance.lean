import TreeBroker.Backend.Kind
import TreeBroker.Backend.Manifest
import TreeBroker.Log

/-!
# Conformance

A backend conforms when its manifest declares every required method, under its
canonical name or an alias. An optional method that is missing is a warning, or
an error where the check is strict. Nothing is instantiated: the manifest alone
is judged.
-/

namespace TreeBroker

/-- **A method that a manifest does not declare.** -/
structure MissingMethod where
  /-- Whose method. -/
  construct : Construct
  /-- Its canonical name. -/
  method : String
  /-- Whether a backend cannot do without. -/
  required : Bool
  deriving Repr, DecidableEq

/-- The text of a missing method. -/
def MissingMethod.message (m : MissingMethod) : String :=
  m.construct.display ++ " is missing " ++ (if m.required then "required" else "optional") ++
    " method `" ++ m.method ++ "`"

/-- **A method that is declared under an alias.** -/
structure AliasUse where
  /-- Whose method. -/
  construct : Construct
  /-- Its canonical name. -/
  method : String
  /-- The name it is declared under. -/
  declared : String
  deriving Repr, DecidableEq

/-- The key of an alias in a report. -/
def AliasUse.key (a : AliasUse) : String := a.construct.display ++ "." ++ a.method

/-- **What a check finds.** -/
structure Findings where
  /-- Why the manifest does not conform. -/
  errors : List MissingMethod
  /-- What it could declare besides. -/
  warnings : List MissingMethod
  /-- What it declares under other names. -/
  aliases : List AliasUse
  deriving Repr, DecidableEq

namespace Conformance

/-- The methods every backend declares. -/
def required : List (Construct × String) :=
  [(.language, "load_language"), (.parser, "new"), (.parser, "set_language"), (.parser, "parse"),
    (.tree, "root_node"), (.node, "kind"), (.node, "start_byte"), (.node, "end_byte"),
    (.node, "child_count"), (.node, "child")]

/-- The methods a backend may declare. -/
def optional : List (Construct × String) :=
  [(.language, "name"), (.parser, "reparse"), (.tree, "edit"), (.node, "start_point"),
    (.node, "end_point"), (.node, "text"), (.node, "has_error"), (.node, "is_missing"),
    (.node, "is_named"), (.node, "parent"), (.node, "next_sibling"), (.node, "prev_sibling"),
    (.node, "child_by_field_name")]

/-- The methods of a table that a manifest does not declare. -/
def missing (m : Manifest) (isRequired : Bool) (table : List (Construct × String)) :
    List MissingMethod :=
  table.filterMap fun (c, method) =>
    if m.provides c method then none else some ⟨c, method, isRequired⟩

/-- The methods of a table that a manifest declares under an alias. -/
def aliased (m : Manifest) (table : List (Construct × String)) : List AliasUse :=
  table.filterMap fun (c, method) =>
    match m.resolve c method with
    | some declared => if declared = method then none else some ⟨c, method, declared⟩
    | none => none

/-- **The check of a manifest.** -/
def check (m : Manifest) (strict : Bool) : Findings :=
  let needed := missing m true required
  let wanted := missing m false optional
  { errors := if strict then needed ++ wanted else needed
    warnings := if strict then [] else wanted
    aliases := aliased m (required ++ optional) }

end Conformance

/-- The aliases of a check, by key in increasing order. -/
def Findings.aliasTable (f : Findings) : List (String × String) :=
  Sorted.table (f.aliases.map fun a => (a.key, a.declared))

/-- A check's findings as data. -/
def Findings.toJson (f : Findings) : Json :=
  .object
    [("errors", .strings (f.errors.map MissingMethod.message)),
      ("warnings", .strings (f.warnings.map MissingMethod.message)),
      ("aliases", .object (f.aliasTable.map fun (k, v) => (k, .string v)))]

/-- **A report** on a backend. -/
structure ConformanceReport where
  /-- The backend. -/
  backend : BackendKind
  /-- Its category. -/
  category : Category
  /-- What the check found. -/
  findings : Findings
  /-- What the backend is able to do. -/
  capabilities : Capabilities
  deriving DecidableEq

namespace ConformanceReport

/-- The report on a backend that declares `m`. -/
def of (backend : BackendKind) (category : Category) (m : Manifest) (strict : Bool) :
    ConformanceReport :=
  ⟨backend, category, Conformance.check m strict, Capabilities.ofManifest m⟩

/-- **Valid**: without errors. -/
def valid (r : ConformanceReport) : Bool := r.findings.errors.isEmpty

/-- The report as data. -/
def toJson (r : ConformanceReport) : Json :=
  .object
    [("backend", .string r.backend.text), ("category", .string r.category.identifier),
      ("valid", .bool r.valid),
      ("errors", .strings (r.findings.errors.map MissingMethod.message)),
      ("warnings", .strings (r.findings.warnings.map MissingMethod.message)),
      ("capabilities", r.capabilities.toJson),
      ("aliases", .object (r.findings.aliasTable.map fun (k, v) => (k, .string v)))]

/-- The event of a check. -/
def event (r : ConformanceReport) (strict : Bool) : Event :=
  ⟨.debug, "Checked backend conformance",
    [("backend", .text r.backend.text), ("errors", .count r.findings.errors.length),
      ("warnings", .count r.findings.warnings.length), ("strict", .flag strict)]⟩

end ConformanceReport

end TreeBroker
