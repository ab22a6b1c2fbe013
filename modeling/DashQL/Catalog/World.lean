import DashQL.Catalog.Model

/-!
# Runs of the catalog

A catalog is driven by scripts that are analyzed against it, loaded, reloaded
after a new analysis, dropped, and cleared.  `registerSchema` is the analyzer's
`NameResolutionPass::RegisterSchema`, the only place that adds database and
schema references to an analysis; `World` is a catalog with the scripts around
it, and `World.run` performs a sequence of operations in any order.

`LoadScript` throws by returning a status, so an operation that throws is an
ordinary step of a run: the next step starts from whatever it left behind.
-/

namespace DashQL.Catalog

open List

/-! ## Analyzing a script -/

def registerDatabase (catalog : Catalog) (refs : List DatabaseReference) (database : Name) :
    List DatabaseReference × QualifiedCatalogObjectId × Catalog :=
  match refs.find? fun ref => decide (ref.databaseName = database) with
  | some ref => (refs, ref.objectId, catalog)
  | none =>
    let (objectId, catalog) := catalog.allocateDatabaseId database
    (refs ++ [⟨objectId, database, []⟩], objectId, catalog)

def registerSchemaReference (catalog : Catalog) (refs : OrderedMap QualifiedSchema SchemaReference)
    (database schema : Name) (databaseId : QualifiedCatalogObjectId) :
    OrderedMap QualifiedSchema SchemaReference × Catalog :=
  if qualifiedSchema database schema ∈ refs then (refs, catalog)
  else
    let (objectId, catalog) := catalog.allocateSchemaId database schema databaseId
    (refs.insertIfNew (qualifiedSchema database schema) ⟨objectId, database, schema⟩, catalog)

theorem registerDatabase_names (catalog : Catalog) (refs : List DatabaseReference)
    (database : Name) :
    (catalog.registerDatabase refs database).1.map DatabaseReference.databaseName =
      if database ∈ refs.map DatabaseReference.databaseName then
        refs.map DatabaseReference.databaseName
      else refs.map DatabaseReference.databaseName ++ [database] := by
  unfold registerDatabase
  cases hfound : refs.find? fun ref => decide (ref.databaseName = database) with
  | some ref =>
    have hname : ref.databaseName = database := by simpa using find?_some hfound
    rw [if_pos (mem_map.mpr ⟨ref, mem_of_find?_eq_some hfound, hname⟩)]
  | none =>
    have hfresh : database ∉ refs.map DatabaseReference.databaseName := by
      simpa [find?_eq_none] using hfound
    rw [if_neg hfresh, map_append]
    rfl

variable {catalog : Catalog}

theorem mem_registerSchemaReference {refs : OrderedMap QualifiedSchema SchemaReference}
    {database schema : Name} {databaseId : QualifiedCatalogObjectId} {key : QualifiedSchema} :
    key ∈ (catalog.registerSchemaReference refs database schema databaseId).1 ↔
      key = qualifiedSchema database schema ∨ key ∈ refs := by
  unfold registerSchemaReference
  split
  · next hmem => exact ⟨Or.inr, fun h => h.elim (fun heq => heq ▸ hmem) id⟩
  · exact OrderedMap.mem_insertIfNew_iff

theorem registerSchemaReference_keyed {refs : OrderedMap QualifiedSchema SchemaReference}
    {database schema : Name} {databaseId : QualifiedCatalogObjectId}
    (hkeyed : ∀ key ref, refs[key]? = some ref →
      key = qualifiedSchema ref.databaseName ref.schemaName) (key : QualifiedSchema)
    (ref : SchemaReference)
    (href : (catalog.registerSchemaReference refs database schema databaseId).1[key]? = some ref) :
    key = qualifiedSchema ref.databaseName ref.schemaName := by
  unfold registerSchemaReference at href
  split at href
  · exact hkeyed key ref href
  · next hfresh =>
      by_cases hkey : key = qualifiedSchema database schema
      · subst hkey
        rw [OrderedMap.getElem?_insertIfNew_of_fresh hfresh] at href
        cases href
        rfl
      · rw [OrderedMap.getElem?_insertIfNew_of_ne hkey] at href
        exact hkeyed key ref href

theorem qualifiedSchema_inj {database database' schema schema' : Name} :
    qualifiedSchema database schema = qualifiedSchema database' schema' ↔
      database = database' ∧ schema = schema' := by
  simp [qualifiedSchema]

theorem mem_registerDatabase_names {refs : List DatabaseReference} {database databaseName : Name} :
    databaseName ∈ (catalog.registerDatabase refs database).1.map DatabaseReference.databaseName ↔
      databaseName = database ∨ databaseName ∈ refs.map DatabaseReference.databaseName := by
  rw [registerDatabase_names]
  split
  · next hmem => exact ⟨Or.inr, fun h => h.elim (fun heq => heq ▸ hmem) id⟩
  · rw [mem_append, mem_singleton, or_comm]

theorem registerDatabase_nodup {refs : List DatabaseReference} {database : Name}
    (hnodup : (refs.map DatabaseReference.databaseName).Nodup) :
    ((catalog.registerDatabase refs database).1.map DatabaseReference.databaseName).Nodup := by
  rw [registerDatabase_names]
  split
  · exact hnodup
  · next hfresh =>
      rw [← concat_eq_append]
      exact hnodup.concat hfresh

def registerSchema (catalog : Catalog) (analyzed : AnalyzedScript) (database schema : Name) :
    AnalyzedScript × Catalog :=
  let databases := catalog.registerDatabase analyzed.databasesByName database
  let schemas := databases.2.2.registerSchemaReference analyzed.schemasByQualifiedName
    database schema databases.2.1
  ({ address := analyzed.address
     catalogEntryId := analyzed.catalogEntryId
     databasesByName := databases.1
     schemasByQualifiedName := schemas.1
     databases_nodup := registerDatabase_nodup analyzed.databases_nodup
     schemas_keyed := registerSchemaReference_keyed analyzed.schemas_keyed
     database_of_schema := by
       intro databaseName schemaName hmem
       rw [mem_registerDatabase_names]
       rcases mem_registerSchemaReference.mp hmem with heq | hmem
       · exact Or.inl (qualifiedSchema_inj.mp heq).1
       · exact Or.inr (analyzed.database_of_schema databaseName schemaName hmem)
     schema_of_database := by
       intro databaseName hmem
       rcases mem_registerDatabase_names.mp hmem with rfl | hmem
       · exact ⟨schema, mem_registerSchemaReference.mpr (Or.inl rfl)⟩
       · obtain ⟨schemaName, hschema⟩ := analyzed.schema_of_database databaseName hmem
         exact ⟨schemaName, mem_registerSchemaReference.mpr (Or.inr hschema)⟩ },
    schemas.2)

/-- An analysis that references nothing yet. -/
def AnalyzedScript.empty (address : ℕ) (catalogEntryId : CatalogEntryId) : AnalyzedScript where
  address := address
  catalogEntryId := catalogEntryId
  databasesByName := []
  schemasByQualifiedName := ∅
  databases_nodup := nodup_nil
  schemas_keyed := by simp
  database_of_schema := by simp
  schema_of_database := by simp

/-- The references that the analyzer meets, registered one after another. -/
def registerSchemas (catalog : Catalog) (analyzed : AnalyzedScript) :
    List (Name × Name) → AnalyzedScript × Catalog
  | [] => (analyzed, catalog)
  | (database, schema) :: rest =>
    let registered := catalog.registerSchema analyzed database schema
    registered.2.registerSchemas registered.1 rest

theorem catalogEntryId_registerSchemas (refs : List (Name × Name)) :
    ∀ (catalog : Catalog) (analyzed : AnalyzedScript),
      (catalog.registerSchemas analyzed refs).1.catalogEntryId = analyzed.catalogEntryId := by
  induction refs with
  | nil => intro _ _; rfl
  | cons ref rest ih =>
    intro catalog analyzed
    obtain ⟨database, schema⟩ := ref
    rw [registerSchemas, ih]
    rfl

/-! ## Worlds and runs -/

/-- One catalog, all scripts, and the address of the next analysis object. -/
structure World where
  catalog : Catalog
  scripts : ScriptAddress → Script
  nextAnalysis : ℕ

/-- The operations of a run.  `analyze` meets the given references in order;
`analyzeElsewhere` is an analysis of a script that belongs to another catalog. -/
inductive Event where
  | analyze (self : ScriptAddress) (refs : List (Name × Name))
  | analyzeElsewhere (self : ScriptAddress) (analyzed : AnalyzedScript)
  | load (self : ScriptAddress) (rank : Rank)
  | drop (self : ScriptAddress)
  | clear

namespace World

/-- `Script::Analyze`, with the references the analyzer meets in the text. -/
def analyze (world : World) (self : ScriptAddress) (refs : List (Name × Name)) : World :=
  let script := world.scripts self
  if script.catalog ≠ world.catalog.address then world else
  let empty := AnalyzedScript.empty world.nextAnalysis script.catalogEntryId
  let registered := world.catalog.registerSchemas empty refs
  { catalog := registered.2
    scripts := Function.update world.scripts self
      { script with
        analyzedScript := some registered.1
        entry_id := by
          rintro analyzed ⟨⟩
          exact catalogEntryId_registerSchemas refs world.catalog empty }
    nextAnalysis := world.nextAnalysis + 1 }

/-- An analysis of a script of another catalog does not touch this one. -/
def analyzeElsewhere (world : World) (self : ScriptAddress) (analyzed : AnalyzedScript) : World :=
  let script := world.scripts self
  if h : script.catalog ≠ world.catalog.address ∧
      analyzed.catalogEntryId = script.catalogEntryId then
    { world with
      scripts := Function.update world.scripts self
        { script with
          analyzedScript := some analyzed
          entry_id := by rintro analyzed ⟨⟩; exact h.2 } }
  else world

/-- One operation.  The status of a load is dropped: the caller may go on. -/
def step (world : World) : Event → World
  | .analyze self refs => world.analyze self refs
  | .analyzeElsewhere self analyzed => world.analyzeElsewhere self analyzed
  | .load self rank =>
    { world with catalog := (world.catalog.loadScript self (world.scripts self) rank).1 }
  | .drop self => { world with catalog := world.catalog.dropScript self (world.scripts self) }
  | .clear => { world with catalog := world.catalog.clear }

def run (world : World) (events : List Event) : World :=
  events.foldl step world

/-- A new catalog, with scripts that have not been analyzed yet. -/
def initial (address : ℕ) (catalogOf : ScriptAddress → ℕ)
    (entryIdOf : ScriptAddress → CatalogEntryId) : World where
  catalog := Catalog.empty address
  scripts self :=
    { catalog := catalogOf self
      catalogEntryId := entryIdOf self
      analyzedScript := none
      entry_id := by simp }
  nextAnalysis := 0

/-- Every operation of a run meets a condition on the state before it. -/
def RunMeets (condition : World → Event → Prop) : World → List Event → Prop
  | _, [] => True
  | world, event :: rest =>
    condition world event ∧ RunMeets condition (world.step event) rest

instance RunMeets.decidable {condition : World → Event → Prop}
    [∀ world event, Decidable (condition world event)] :
    ∀ (world : World) (events : List Event), Decidable (RunMeets condition world events)
  | _, [] => isTrue trivial
  | world, event :: rest =>
    have : Decidable (RunMeets condition (world.step event) rest) :=
      RunMeets.decidable (world.step event) rest
    inferInstanceAs (Decidable (condition world event ∧ _))

theorem run_invariant {condition : World → Event → Prop} (invariant : World → Prop)
    (hstep : ∀ world event, invariant world → condition world event →
      invariant (world.step event)) :
    ∀ {events : List Event} {world : World}, invariant world →
      RunMeets condition world events → invariant (world.run events) := by
  intro events
  induction events with
  | nil => intro world hinv _; exact hinv
  | cons event rest ih =>
    intro world hinv hmeets
    exact ih (hstep world event hinv hmeets.1) hmeets.2

end World

end DashQL.Catalog
