import DashQL.Library.OrderedMap

/-!
# The script registry

The registry has the analyzed scripts that were added, and two indexes of the pairs of a
column and a script: one for the column filters and one for the column computations.
The two are treated alike (`UseKind`).

Of an analysis the column filters and computations are kept, with what their column ref
is resolved to, and the multimaps that find them by the column.
-/

namespace DashQL.Registry

/-- The address of a script; `nullptr` is the least one. -/
abbrev ScriptPointer := ℕ

abbrev CatalogVersion := ℕ

structure ResolvedColumnIDs (Column : Type) where
  catalogTableColumnId : Column
  referencedCatalogVersion : CatalogVersion

/-- A `ColumnFilter` or `ColumnComputation`: the expression at its root, and what
`GetResolvedColumnIDs` says of its column ref. -/
structure ColumnUse (Column : Type) where
  root : ℕ
  resolvedColumnIDs : Option (ResolvedColumnIDs Column)

inductive UseKind
  | filter
  | computation
  deriving DecidableEq

variable {Column : Type} [LinearOrder Column]

def ColumnUse.isOn (column : Column) (use : ColumnUse Column) : Bool :=
  use.resolvedColumnIDs.any (·.catalogTableColumnId = column)

/-- `column_filters` with `column_filters_by_catalog_entry`, or the same of the computations.  The
order in which the multimap has the uses of a column is not specified. -/
structure ColumnUses (Column : Type) [LinearOrder Column] where
  uses : List (ColumnUse Column)
  byCatalogEntry : Column → List (ColumnUse Column)
  byCatalogEntry_perm : ∀ column, (byCatalogEntry column).Perm (uses.filter (·.isOn column))

/-- `AnalyzedScript`, as far as the registry reads it. -/
structure AnalyzedScript (Column : Type) [LinearOrder Column] where
  columnFilters : ColumnUses Column
  columnComputations : ColumnUses Column

def AnalyzedScript.columnUses (analyzed : AnalyzedScript Column) : UseKind → ColumnUses Column
  | .filter => analyzed.columnFilters
  | .computation => analyzed.columnComputations

/-- A set of columns and scripts, ordered by the column and then by the script. -/
abbrev ColumnIndex (Column : Type) [LinearOrder Column] := OrderedMap (Column ×ₗ ScriptPointer) Unit

structure ScriptRegistry (Column : Type) [LinearOrder Column] where
  scriptEntries : ScriptPointer → Option (AnalyzedScript Column)
  /-- `column_filters` and `column_computations` -/
  columns : UseKind → ColumnIndex Column

/-- `IndexedColumnFilter` or `IndexedColumnComputation`. -/
structure IndexedUse (Column : Type) [LinearOrder Column] where
  script : ScriptPointer
  analyzed : AnalyzedScript Column
  use : ColumnUse Column

namespace ScriptRegistry

def empty : ScriptRegistry Column := ⟨fun _ => none, fun _ => ∅⟩

/-- `Clear`: the body is empty. -/
def clear (registry : ScriptRegistry Column) : ScriptRegistry Column := registry

/-- `DropScript`: the body is empty. -/
def dropScript (_script : ScriptPointer) (registry : ScriptRegistry Column) :
    ScriptRegistry Column :=
  registry

/-- The uses of a script whose column is resolved are inserted. -/
def insertUses (script : ScriptPointer) (uses : List (ColumnUse Column))
    (index : ColumnIndex Column) : ColumnIndex Column :=
  (uses.filterMap fun use => use.resolvedColumnIDs.map (·.catalogTableColumnId)).foldl
    (fun index column => index.insertIfNew (toLex (column, script)) ()) index

/-- `AddScript` of a script with its analysis, where `none` stands for the exception. -/
def addScript (script : ScriptPointer) (analyzedScript : Option (AnalyzedScript Column))
    (registry : ScriptRegistry Column) : Option (ScriptRegistry Column) :=
  analyzedScript.map fun analyzed =>
    { scriptEntries := Function.update registry.scriptEntries script (some analyzed)
      columns := fun kind =>
        insertUses script (analyzed.columnUses kind).uses (registry.columns kind) }

/-- The uses of a column in a script, up to the first one that was resolved at another version than
the target, and whether there is such a one. -/
def collectUses (targetCatalogVersion : Option CatalogVersion) :
    List (ColumnUse Column) → List (ColumnUse Column) × Bool
  | [] => ([], false)
  | use :: uses =>
    if use.resolvedColumnIDs.any fun resolved =>
        targetCatalogVersion.any (resolved.referencedCatalogVersion ≠ ·) then ([], true)
    else
      let rest := collectUses targetCatalogVersion uses
      (use :: rest.1, rest.2)

/-- The scripts of a column, from the lower bound with the null pointer on. -/
def scriptsOf (index : ColumnIndex Column) (columnId : Column) : List ScriptPointer :=
  (index.scan (toLex (columnId, 0)) fun key => (ofLex key).1 = columnId).map (ofLex · |>.2)

def collectScript (registry : ScriptRegistry Column) (kind : UseKind) (columnId : Column)
    (targetCatalogVersion : Option CatalogVersion) (script : ScriptPointer) :
    List (IndexedUse Column) × Bool :=
  match registry.scriptEntries script with
  | none => ([], false)
  | some analyzed =>
    let found :=
      collectUses targetCatalogVersion ((analyzed.columnUses kind).byCatalogEntry columnId)
    (found.1.map (⟨script, analyzed, ·⟩), found.2)

/-- What a lookup collects of a script, if the index has it under the column. -/
def shown (registry : ScriptRegistry Column) (kind : UseKind) (columnId : Column)
    (target : Option CatalogVersion) (script : ScriptPointer) : List (IndexedUse Column) × Bool :=
  if toLex (columnId, script) ∈ registry.columns kind then
    registry.collectScript kind columnId target script
  else ([], false)

/-- A lookup of one kind of uses; the scripts that are found outdated leave the index. -/
def findColumnUses (kind : UseKind) (columnId : Column)
    (targetCatalogVersion : Option CatalogVersion) (registry : ScriptRegistry Column) :
    List (IndexedUse Column) × ScriptRegistry Column :=
  let scripts := scriptsOf (registry.columns kind) columnId
  let collect := registry.collectScript kind columnId targetCatalogVersion
  let outdated := scripts.filter fun script => (collect script).2
  (scripts.flatMap fun script => (collect script).1,
    { registry with
      columns := Function.update registry.columns kind
        (outdated.foldl (fun index script => index.erase (toLex (columnId, script)))
          (registry.columns kind)) })

def findColumnFilters (columnId : Column) (targetCatalogVersion : Option CatalogVersion)
    (registry : ScriptRegistry Column) : List (IndexedUse Column) × ScriptRegistry Column :=
  findColumnUses .filter columnId targetCatalogVersion registry

def findColumnComputations (columnId : Column) (targetCatalogVersion : Option CatalogVersion)
    (registry : ScriptRegistry Column) : List (IndexedUse Column) × ScriptRegistry Column :=
  findColumnUses .computation columnId targetCatalogVersion registry

end ScriptRegistry

end DashQL.Registry
