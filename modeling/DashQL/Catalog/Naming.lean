import DashQL.Catalog.Ids

/-!
# What an id stands for

Ids are counted up and never given out twice, so an id stands for one name in the
whole life of a catalog, also where two analyses have different ids for one name.
`Naming` records for every id that has been given out what it stands for, and
`exists_namedBy_of_run` says that in every state of every run some naming fits
every reference there is: the registered ones, those of the loaded entries, and
those of the analyses that are not loaded yet.
-/

namespace DashQL.Catalog

open Function List Option

/-- What the ids stand for that have been given out so far. -/
structure Naming where
  nextDatabaseId : ℕ
  nextSchemaId : ℕ
  databaseOf : ℕ → Name
  schemaOf : ℕ → QualifiedSchema

namespace Naming

def IsDatabase (naming : Naming) (objectId : QualifiedCatalogObjectId) (database : Name) : Prop :=
  ∃ id < naming.nextDatabaseId, objectId = .database id ∧ naming.databaseOf id = database

/-- The id stands for the schema, and starts with an id of its database. -/
def IsSchema (naming : Naming) (objectId : QualifiedCatalogObjectId) (database schema : Name) :
    Prop :=
  ∃ databaseId < naming.nextDatabaseId, ∃ id < naming.nextSchemaId,
    objectId = .schema databaseId id ∧ naming.databaseOf databaseId = database ∧
      naming.schemaOf id = qualifiedSchema database schema

/-- The naming fits every reference of an analysis. -/
structure Fits (naming : Naming) (analyzed : AnalyzedScript) : Prop where
  database : ∀ ref ∈ analyzed.databasesByName, naming.IsDatabase ref.objectId ref.databaseName
  schema : ∀ ref ∈ analyzed.schemaReferences,
    naming.IsSchema ref.objectId ref.databaseName ref.schemaName

/-- A later naming has given out more ids, and has not changed what one stands for. -/
structure Extends (naming later : Naming) : Prop where
  databaseId : naming.nextDatabaseId ≤ later.nextDatabaseId
  schemaId : naming.nextSchemaId ≤ later.nextSchemaId
  database : ∀ id < naming.nextDatabaseId, later.databaseOf id = naming.databaseOf id
  schema : ∀ id < naming.nextSchemaId, later.schemaOf id = naming.schemaOf id

section Extends

variable {naming later last : Naming} {objectId : QualifiedCatalogObjectId} {database schema : Name}

theorem Extends.refl (naming : Naming) : naming.Extends naming :=
  ⟨le_rfl, le_rfl, fun _ _ => rfl, fun _ _ => rfl⟩

section

variable (h : naming.Extends later)

include h

theorem Extends.trans (h' : later.Extends last) : naming.Extends last where
  databaseId := h.databaseId.trans h'.databaseId
  schemaId := h.schemaId.trans h'.schemaId
  database id hid := (h'.database id (hid.trans_le h.databaseId)).trans (h.database id hid)
  schema id hid := (h'.schema id (hid.trans_le h.schemaId)).trans (h.schema id hid)

theorem IsDatabase.mono (hname : naming.IsDatabase objectId database) :
    later.IsDatabase objectId database := by
  obtain ⟨id, hid, heq, hof⟩ := hname
  exact ⟨id, hid.trans_le h.databaseId, heq, (h.database id hid).trans hof⟩

theorem IsSchema.mono (hname : naming.IsSchema objectId database schema) :
    later.IsSchema objectId database schema := by
  obtain ⟨databaseId, hdatabaseId, id, hid, heq, hdatabase, hschema⟩ := hname
  exact ⟨databaseId, hdatabaseId.trans_le h.databaseId, id, hid.trans_le h.schemaId, heq,
    (h.database databaseId hdatabaseId).trans hdatabase, (h.schema id hid).trans hschema⟩

theorem Fits.mono {analyzed : AnalyzedScript} (hfits : naming.Fits analyzed) :
    later.Fits analyzed :=
  ⟨fun ref href => (hfits.database ref href).mono h, fun ref href => (hfits.schema ref href).mono h⟩

end

theorem IsDatabase.unique {database' : Name} (h : naming.IsDatabase objectId database)
    (h' : naming.IsDatabase objectId database') : database = database' := by
  obtain ⟨id, -, rfl, rfl⟩ := h
  obtain ⟨id', -, heq, rfl⟩ := h'
  have hid : id = id' := congrArg QualifiedCatalogObjectId.part0 heq
  rw [hid]

theorem IsSchema.unique {database' schema' : Name} (h : naming.IsSchema objectId database schema)
    (h' : naming.IsSchema objectId database' schema') : database = database' ∧ schema = schema' := by
  obtain ⟨databaseId, -, id, -, rfl, -, hof⟩ := h
  obtain ⟨databaseId', -, id', -, heq, -, hof'⟩ := h'
  have hid : id = id' := congrArg QualifiedCatalogObjectId.part1 heq
  rw [hid, hof'] at hof
  exact qualifiedSchema_inj.mp hof.symm

theorem IsSchema.isDatabase (h : naming.IsSchema objectId database schema) :
    naming.IsDatabase (.database objectId.unpackDatabaseId) database := by
  obtain ⟨databaseId, hdatabaseId, id, -, rfl, hdatabase, -⟩ := h
  exact ⟨databaseId, hdatabaseId, rfl, hdatabase⟩

end Extends

def giveDatabaseId (naming : Naming) (database : Name) : Naming :=
  { naming with
    nextDatabaseId := naming.nextDatabaseId + 1
    databaseOf := Function.update naming.databaseOf naming.nextDatabaseId database }

def giveSchemaId (naming : Naming) (database schema : Name) : Naming :=
  { naming with
    nextSchemaId := naming.nextSchemaId + 1
    schemaOf := Function.update naming.schemaOf naming.nextSchemaId
      (qualifiedSchema database schema) }

theorem extends_giveDatabaseId (naming : Naming) (database : Name) :
    naming.Extends (naming.giveDatabaseId database) :=
  ⟨Nat.le_succ _, le_rfl, fun _ hid => update_of_ne hid.ne _ _, fun _ _ => rfl⟩

theorem extends_giveSchemaId (naming : Naming) (database schema : Name) :
    naming.Extends (naming.giveSchemaId database schema) :=
  ⟨le_rfl, Nat.le_succ _, fun _ _ => rfl, fun _ hid => update_of_ne hid.ne _ _⟩

theorem isDatabase_giveDatabaseId (naming : Naming) (database : Name) :
    (naming.giveDatabaseId database).IsDatabase (.database naming.nextDatabaseId) database :=
  ⟨naming.nextDatabaseId, Nat.lt_succ_self _, rfl, update_self _ _ _⟩

theorem isSchema_giveSchemaId {naming : Naming} {database : Name} (schema : Name)
    {databaseId : QualifiedCatalogObjectId} (h : naming.IsDatabase databaseId database) :
    (naming.giveSchemaId database schema).IsSchema
      (.schema databaseId.unpackDatabaseId naming.nextSchemaId) database schema := by
  obtain ⟨id, hid, rfl, hof⟩ := h
  exact ⟨id, hid, naming.nextSchemaId, Nat.lt_succ_self _, rfl, hof, update_self _ _ _⟩

end Naming

/-! ## Analyzing -/

/-- The naming fits the registered names, and the catalog gives out the next ids. -/
structure RegisteredBy (catalog : Catalog) (naming : Naming) : Prop where
  databaseId : naming.nextDatabaseId = catalog.nextDatabaseId
  schemaId : naming.nextSchemaId = catalog.nextSchemaId
  database : ∀ name declaration, catalog.databases[name]? = some declaration →
    naming.IsDatabase declaration.objectId name
  schema : ∀ database schema declaration,
    catalog.schemas[qualifiedSchema database schema]? = some declaration →
      naming.IsSchema declaration.objectId database schema

section Analyzing

variable {catalog : Catalog} {naming : Naming} {database schema : Name}

section

variable (h : RegisteredBy catalog naming)

include h

theorem RegisteredBy.allocateDatabaseId :
    ∃ later, naming.Extends later ∧ RegisteredBy (catalog.allocateDatabaseId database).2 later ∧
      later.IsDatabase (catalog.allocateDatabaseId database).1 database := by
  unfold Catalog.allocateDatabaseId
  cases hlookup : catalog.databases[database]? with
  | some declaration => exact ⟨naming, .refl _, h, h.database database declaration hlookup⟩
  | none =>
    have hextends := naming.extends_giveDatabaseId database
    refine ⟨naming.giveDatabaseId database, hextends, ?_, ?_⟩
    · exact ⟨congrArg (· + 1) h.databaseId, h.schemaId,
        fun name declaration hname => (h.database name declaration hname).mono hextends,
        fun _ _ declaration hname => (h.schema _ _ declaration hname).mono hextends⟩
    · have hgiven := naming.isDatabase_giveDatabaseId database
      rw [h.databaseId] at hgiven
      exact hgiven

theorem RegisteredBy.allocateSchemaId {databaseId : QualifiedCatalogObjectId}
    (hdatabase : naming.IsDatabase databaseId database) :
    ∃ later, naming.Extends later ∧
      RegisteredBy (catalog.allocateSchemaId database schema databaseId).2 later ∧
      later.IsSchema (catalog.allocateSchemaId database schema databaseId).1 database schema := by
  unfold Catalog.allocateSchemaId
  cases hlookup : catalog.schemas[qualifiedSchema database schema]? with
  | some declaration => exact ⟨naming, .refl _, h, h.schema database schema declaration hlookup⟩
  | none =>
    have hextends := naming.extends_giveSchemaId database schema
    refine ⟨naming.giveSchemaId database schema, hextends, ?_, ?_⟩
    · exact ⟨h.databaseId, congrArg (· + 1) h.schemaId,
        fun name declaration hname => (h.database name declaration hname).mono hextends,
        fun _ _ declaration hname => (h.schema _ _ declaration hname).mono hextends⟩
    · have hgiven := Naming.isSchema_giveSchemaId schema hdatabase
      rw [h.schemaId] at hgiven
      exact hgiven

theorem RegisteredBy.registerDatabase {refs : List DatabaseReference}
    (hrefs : ∀ ref ∈ refs, naming.IsDatabase ref.objectId ref.databaseName) :
    ∃ later, naming.Extends later ∧ RegisteredBy (catalog.registerDatabase refs database).2.2 later ∧
      later.IsDatabase (catalog.registerDatabase refs database).2.1 database ∧
      ∀ ref ∈ (catalog.registerDatabase refs database).1,
        later.IsDatabase ref.objectId ref.databaseName := by
  unfold Catalog.registerDatabase
  cases hfind : refs.find? fun ref => decide (ref.databaseName = database) with
  | some ref =>
    have hname : ref.databaseName = database := by simpa using find?_some hfind
    refine ⟨naming, .refl _, h, ?_, hrefs⟩
    rw [← hname]
    exact hrefs ref (mem_of_find?_eq_some hfind)
  | none =>
    obtain ⟨later, hextends, hregistered, hdatabase⟩ :=
      @allocateDatabaseId catalog naming database h
    refine ⟨later, hextends, hregistered, hdatabase, ?_⟩
    intro ref href
    rcases mem_append.mp href with hold | hnew
    · exact (hrefs ref hold).mono hextends
    · rw [mem_singleton.mp hnew]
      exact hdatabase

theorem RegisteredBy.registerSchemaReference {refs : OrderedMap QualifiedSchema SchemaReference}
    {databaseId : QualifiedCatalogObjectId} (hdatabase : naming.IsDatabase databaseId database)
    (hrefs : ∀ ref : SchemaReference, refs[ref.key]? = some ref → naming.IsSchema ref.objectId ref.databaseName ref.schemaName) :
    ∃ later, naming.Extends later ∧
      RegisteredBy (catalog.registerSchemaReference refs database schema databaseId).2 later ∧
      ∀ ref : SchemaReference,
        (catalog.registerSchemaReference refs database schema databaseId).1[ref.key]? = some ref →
          later.IsSchema ref.objectId ref.databaseName ref.schemaName := by
  unfold Catalog.registerSchemaReference
  split_ifs with hmem
  · exact ⟨naming, .refl _, h, hrefs⟩
  · obtain ⟨later, hextends, hregistered, hschema⟩ :=
      @allocateSchemaId catalog naming database schema h databaseId hdatabase
    refine ⟨later, hextends, hregistered, ?_⟩
    intro ref hlookup
    by_cases hkey : ref.key = qualifiedSchema database schema
    · rw [hkey, OrderedMap.getElem?_insertIfNew_of_fresh hmem] at hlookup
      obtain rfl := some.inj hlookup
      exact hschema
    · rw [OrderedMap.getElem?_insertIfNew_of_ne hkey] at hlookup
      exact (hrefs ref hlookup).mono hextends

/-- One reference more: the naming that fits the analysis is extended by at most two ids. -/
theorem RegisteredBy.registerSchema {analyzed : AnalyzedScript} (hfits : naming.Fits analyzed) :
    ∃ later, naming.Extends later ∧
      RegisteredBy (catalog.registerSchema analyzed database schema).2 later ∧
      later.Fits (catalog.registerSchema analyzed database schema).1 := by
  obtain ⟨middle, hmiddle, hregistered, hdatabase, hrefs⟩ :=
    @registerDatabase catalog naming database h _ hfits.database
  have hschemas : ∀ ref : SchemaReference, analyzed.schemasByQualifiedName[ref.key]? = some ref →
      middle.IsSchema ref.objectId ref.databaseName ref.schemaName :=
    fun ref href => (hfits.schema ref (mem_schemaReferences.mpr href)).mono hmiddle
  obtain ⟨later, hlater, hafter, hlaterSchemas⟩ :=
    @registerSchemaReference _ middle database schema hregistered _ _ hdatabase hschemas
  refine ⟨later, hmiddle.trans hlater, hafter, ?_, ?_⟩
  · exact fun ref href => (hrefs ref href).mono hlater
  · exact fun ref href => hlaterSchemas ref (mem_schemaReferences.mp href)

end

theorem RegisteredBy.registerSchemas (refs : List (Name × Name)) :
    ∀ {catalog : Catalog} {naming : Naming} {analyzed : AnalyzedScript},
      RegisteredBy catalog naming → naming.Fits analyzed →
      ∃ later, naming.Extends later ∧
        RegisteredBy (catalog.registerSchemas analyzed refs).2 later ∧
        later.Fits (catalog.registerSchemas analyzed refs).1 := by
  induction refs with
  | nil => exact fun h hfits => ⟨_, .refl _, h, hfits⟩
  | cons ref rest ih =>
    intro catalog naming analyzed h hfits
    obtain ⟨database, schema⟩ := ref
    obtain ⟨middle, hmiddle, hregistered, hmiddleFits⟩ := h.registerSchema hfits
    obtain ⟨later, hlater, hrest⟩ := ih hregistered hmiddleFits
    exact ⟨later, hmiddle.trans hlater, hrest⟩

end Analyzing

/-! ## Loading -/

section Loading

variable {catalog : Catalog} {naming : Naming} {analyzed : AnalyzedScript}

theorem RegisteredBy.declare (h : RegisteredBy catalog naming) (hfits : naming.Fits analyzed) :
    RegisteredBy (catalog.declare analyzed) naming := by
  refine ⟨h.databaseId, h.schemaId, ?_, ?_⟩
  · intro name declaration hlookup
    rcases databases_declare_eq_some_iff.mp hlookup with hold | ⟨-, ref, href, rfl, rfl⟩
    · exact h.database name declaration hold
    · exact hfits.database ref ((takeWhile_sublist _).mem href)
  · intro database schema declaration hlookup
    rcases schemas_declare_eq_some_iff.mp hlookup with hold | ⟨-, ref, href, hkey, rfl⟩
    · exact h.schema database schema declaration hold
    · obtain ⟨rfl, rfl⟩ := qualifiedSchema_inj.mp hkey
      apply hfits.schema
      unfold declaredSchemas at href
      split_ifs at href
      · exact absurd href not_mem_nil
      · exact (takeWhile_sublist _).mem href

theorem RegisteredBy.updateScript {self : ScriptAddress} {entry : ScriptEntry}
    {entryId : CatalogEntryId} (h : RegisteredBy catalog naming) (hfits : naming.Fits analyzed)
    (hchanged : entry.analyzed.address ≠ analyzed.address) :
    RegisteredBy (catalog.updateScript self entry entryId analyzed).1 naming := by
  have hnext : (catalog.updateScript self entry entryId analyzed).1.nextDatabaseId =
      catalog.nextDatabaseId ∧ (catalog.updateScript self entry entryId analyzed).1.nextSchemaId =
        catalog.nextSchemaId := by
    rw [updateScript_of_changed hchanged]
    exact ⟨rfl, rfl⟩
  refine ⟨h.databaseId.trans hnext.1.symm, h.schemaId.trans hnext.2.symm, ?_, ?_⟩
  · intro name declaration hlookup
    obtain ⟨-, hold | ⟨-, -, ref, href, rfl, rfl⟩⟩ :=
      (databases_updateScript_eq_some_iff hchanged).mp hlookup
    · exact h.database name declaration hold
    · exact hfits.database ref href
  · intro database schema declaration hlookup
    rcases (schemas_updateScript_eq_some_iff hchanged).mp hlookup with ⟨hold, -⟩ | ⟨-, -, hnew⟩
    · exact h.schema database schema declaration hold
    · have hkey := analyzed.schemas_keyed _ declaration hnew
      obtain ⟨rfl, rfl⟩ := qualifiedSchema_inj.mp hkey
      exact hfits.schema declaration (mem_schemaReferences.mpr hnew)

end Loading

/-! ## Runs -/

namespace World

structure NamedBy (world : World) (naming : Naming) : Prop where
  registered : RegisteredBy world.catalog naming
  entries : ∀ (self : ScriptAddress) (entry : ScriptEntry),
    world.catalog.scriptEntries[self]? = some entry → naming.Fits entry.analyzed
  scripts : ∀ self, (world.scripts self).catalog = world.catalog.address →
    ∀ analyzed, (world.scripts self).analyzedScript = some analyzed → naming.Fits analyzed

variable {world : World}

theorem NamedBy.analyze {naming : Naming} (h : world.NamedBy naming) (self : ScriptAddress)
    (refs : List (Name × Name)) : ∃ later, (world.analyze self refs).NamedBy later := by
  unfold World.analyze
  dsimp only
  split_ifs with hcatalog
  · exact ⟨naming, h⟩
  have hempty : naming.Fits
      (AnalyzedScript.empty world.nextAnalysis (world.scripts self).catalogEntryId) :=
    ⟨by simp [AnalyzedScript.empty], by simp [AnalyzedScript.empty, AnalyzedScript.schemaReferences]⟩
  obtain ⟨later, hextends, hregistered, hfits⟩ := h.registered.registerSchemas refs hempty
  obtain ⟨databaseId, schemaId, hafter⟩ := registerSchemas_catalog refs world.catalog
    (AnalyzedScript.empty world.nextAnalysis (world.scripts self).catalogEntryId)
  refine ⟨later, hregistered, ?_, ?_⟩
  · intro other entry hentry
    dsimp only at hentry
    rw [hafter] at hentry
    exact (h.entries other entry hentry).mono hextends
  · intro other hother analyzed hanalyzed
    dsimp only at hother hanalyzed
    by_cases hself : other = self
    · subst hself
      rw [update_self] at hanalyzed
      obtain rfl := some.inj hanalyzed
      exact hfits
    · rw [update_of_ne hself] at hother hanalyzed
      rw [hafter] at hother
      exact (h.scripts other hother analyzed hanalyzed).mono hextends

theorem NamedBy.analyzeElsewhere {naming : Naming} (h : world.NamedBy naming) (self : ScriptAddress)
    (analyzed : AnalyzedScript) : (world.analyzeElsewhere self analyzed).NamedBy naming := by
  unfold World.analyzeElsewhere
  dsimp only
  split_ifs with hcatalog
  · refine ⟨h.registered, h.entries, ?_⟩
    intro other hother analyzed' hanalyzed
    dsimp only at hother hanalyzed
    by_cases hself : other = self
    · subst hself
      rw [update_self] at hother
      exact absurd hother hcatalog.1
    · rw [update_of_ne hself] at hother hanalyzed
      exact h.scripts other hother analyzed' hanalyzed
  · exact h

theorem NamedBy.load {naming : Naming} (h : world.NamedBy naming) (self : ScriptAddress)
    (rank : Rank) : (world.step (.load self rank)).NamedBy naming := by
  by_cases hcatalog : (world.scripts self).catalog = world.catalog.address
  · have hfits := h.scripts self hcatalog
    have houtcome := loadOutcome_loadScript world.catalog self (world.scripts self) rank
    change NamedBy { world with
      catalog := (world.catalog.loadScript self (world.scripts self) rank).1 } naming
    generalize world.catalog.loadScript self (world.scripts self) rank = result at houtcome ⊢
    cases houtcome with
    | rejected status hstatus hfirst => exact h
    | updated entry analyzed hentry hanalyzed =>
      by_cases hsame : entry.analyzed.address = analyzed.address
      · rw [updateScript_of_same hsame]
        exact h
      have haddress : (world.catalog.updateScript self entry
          (world.scripts self).catalogEntryId analyzed).1.address = world.catalog.address := by
        rw [updateScript_of_changed hsame]
      refine ⟨h.registered.updateScript (hfits analyzed hanalyzed) hsame, ?_, ?_⟩
      · intro other found hfound
        dsimp only at hfound
        rw [updateScript_of_changed hsame] at hfound
        by_cases hother : other = self
        · subst hother
          rw [OrderedMap.getElem?_insert_self] at hfound
          obtain rfl := some.inj hfound
          exact hfits analyzed hanalyzed
        · rw [OrderedMap.getElem?_insert_of_ne hother] at hfound
          exact h.entries other found hfound
      · intro other hother
        exact h.scripts other (hother.trans haddress)
    | conflict analyzed hfirst hconflict =>
      exact ⟨h.registered.declare (hfits analyzed hfirst.analyzed_eq), h.entries, h.scripts⟩
    | loaded analyzed hfirst hdatabases hschemas =>
      have hdeclared := h.registered.declare (hfits analyzed hfirst.analyzed_eq)
      rw [registerEntry_eq]
      refine ⟨⟨hdeclared.databaseId, hdeclared.schemaId, hdeclared.database, hdeclared.schema⟩,
        ?_, h.scripts⟩
      intro other found hfound
      by_cases hother : other = self
      · subst hother
        have hfresh : other ∉ (world.catalog.declare analyzed).scriptEntries := hfirst.not_loaded
        rw [OrderedMap.getElem?_insertIfNew_of_fresh hfresh] at hfound
        obtain rfl := some.inj hfound
        exact hfits analyzed hfirst.analyzed_eq
      · rw [OrderedMap.getElem?_insertIfNew_of_ne hother] at hfound
        exact h.entries other found hfound
  · have hrejected : (world.catalog.loadScript self (world.scripts self) rank).1 =
        world.catalog := by
      unfold loadScript
      split
      · rfl
      · rw [if_pos hcatalog]
    unfold World.step
    dsimp only
    rw [hrejected]
    exact h

theorem NamedBy.drop {naming : Naming} (h : world.NamedBy naming) (self : ScriptAddress) :
    (world.step (.drop self)).NamedBy naming := by
  unfold World.step Catalog.dropScript
  dsimp only
  split
  · exact h
  next entry hentry =>
  refine ⟨⟨h.registered.databaseId, h.registered.schemaId, h.registered.database,
    h.registered.schema⟩, ?_, h.scripts⟩
  intro other found hfound
  dsimp only at hfound
  by_cases hother : other = self
  · rw [hother, OrderedMap.getElem?_erase_self] at hfound
    cases hfound
  · rw [OrderedMap.getElem?_erase_of_ne hother] at hfound
    exact h.entries other found hfound

theorem exists_namedBy_step (event : Event) (h : ∃ naming, world.NamedBy naming) :
    ∃ naming, (world.step event).NamedBy naming := by
  obtain ⟨naming, hnamed⟩ := h
  cases event with
  | analyze self refs => exact hnamed.analyze self refs
  | analyzeElsewhere self analyzed => exact ⟨naming, hnamed.analyzeElsewhere self analyzed⟩
  | load self rank => exact ⟨naming, hnamed.load self rank⟩
  | drop self => exact ⟨naming, hnamed.drop self⟩
  | clear =>
    refine ⟨naming, ⟨hnamed.registered.databaseId, hnamed.registered.schemaId,
      hnamed.registered.database, hnamed.registered.schema⟩, ?_, hnamed.scripts⟩
    simp [step, Catalog.clear]

/-- In every state of every run, every id stands for one name. -/
theorem exists_namedBy_of_run (address : ℕ) (catalogOf : ScriptAddress → ℕ)
    (entryIdOf : ScriptAddress → CatalogEntryId) (events : List Event) :
    ∃ naming, ((initial address catalogOf entryIdOf).run events).NamedBy naming := by
  have hinitial : ∃ naming, (initial address catalogOf entryIdOf).NamedBy naming :=
    ⟨⟨initialDatabaseId, initialSchemaId, fun _ => [], fun _ => qualifiedSchema [] []⟩,
      ⟨rfl, rfl, by simp [initial, Catalog.empty], by simp [initial, Catalog.empty]⟩,
      by simp [initial, Catalog.empty], by simp [initial]⟩
  have hrun : ∀ (events : List Event) (world : World), (∃ naming, world.NamedBy naming) →
      ∃ naming, (world.run events).NamedBy naming := by
    intro events
    induction events with
    | nil => exact fun world h => h
    | cons event rest ih => exact fun world h => ih (world.step event) (exists_namedBy_step event h)
  exact hrun events _ hinitial

end World

end DashQL.Catalog
