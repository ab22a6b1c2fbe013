import DashQL.Catalog.Index
import DashQL.Catalog.LoadFailure

/-!
# Which names are registered

The members `databases` and `schemas` are documented as the databases and schemas
that entries currently reference.  A first load and an update keep it that way:
`UpdateScript` probes the qualified index before it forgets a name, and by
`Consistent` the probe finds exactly the references of the loaded entries.
`DropScript`, `Clear` and a load that throws do not look at the two maps at all.

`registeredExact_of_run` is the run version: the maps are exact as long as no
drop takes the last reference to a schema, nothing is referenced when the catalog
is cleared, and no failing load registers a name before it throws.
-/

namespace DashQL.Catalog

/-! ## References of the loaded entries -/

/-- Some loaded entry refers to a name. -/
def Referenced (loaded : OrderedMap ScriptAddress ScriptEntry) (refers : AnalyzedScript → Prop) :
    Prop :=
  ∃ item ∈ loaded.toList, refers item.2.analyzed

/-- Some loaded entry other than that of the script refers to a name. -/
def ReferencedElsewhere (loaded : OrderedMap ScriptAddress ScriptEntry) (self : ScriptAddress)
    (refers : AnalyzedScript → Prop) : Prop :=
  ∃ item ∈ loaded.toList, item.1 ≠ self ∧ refers item.2.analyzed

instance (loaded : OrderedMap ScriptAddress ScriptEntry) (self : ScriptAddress)
    (refers : AnalyzedScript → Prop) [DecidablePred refers] :
    Decidable (ReferencedElsewhere loaded self refers) :=
  inferInstanceAs (Decidable (∃ _ ∈ _, _))

/-- The analysis references the schema. -/
def AnalyzedScript.refersToSchema (key : QualifiedSchema) (analyzed : AnalyzedScript) : Prop :=
  key ∈ analyzed.schemasByQualifiedName

/-- The analysis references the database. -/
def AnalyzedScript.refersToDatabase (database : Name) (analyzed : AnalyzedScript) : Prop :=
  database ∈ analyzed.databaseNames

instance (key : QualifiedSchema) : DecidablePred (AnalyzedScript.refersToSchema key) :=
  fun analyzed => inferInstanceAs (Decidable (key ∈ analyzed.schemasByQualifiedName))

section Referenced

variable {loaded after : OrderedMap ScriptAddress ScriptEntry} {self : ScriptAddress}
  {entry : ScriptEntry} {refers : AnalyzedScript → Prop}

theorem referenced_iff : Referenced loaded refers ↔
    ∃ (script : ScriptAddress) (entry : ScriptEntry), loaded[script]? = some entry ∧
      refers entry.analyzed := by
  constructor
  · rintro ⟨item, hitem, hrefers⟩
    exact ⟨item.1, item.2, OrderedMap.mem_toList_iff.mp hitem, hrefers⟩
  · rintro ⟨script, entry, hentry, hrefers⟩
    exact ⟨(script, entry), OrderedMap.mem_toList_iff.mpr hentry, hrefers⟩

theorem referencedElsewhere_iff : ReferencedElsewhere loaded self refers ↔
    ∃ (other : ScriptAddress) (entry : ScriptEntry), other ≠ self ∧ loaded[other]? = some entry ∧
      refers entry.analyzed := by
  constructor
  · rintro ⟨item, hitem, hne, hrefers⟩
    exact ⟨item.1, item.2, hne, OrderedMap.mem_toList_iff.mp hitem, hrefers⟩
  · rintro ⟨other, entry, hne, hentry, hrefers⟩
    exact ⟨(other, entry), OrderedMap.mem_toList_iff.mpr hentry, hne, hrefers⟩

theorem referenced_iff_of_loaded (hentry : loaded[self]? = some entry) :
    Referenced loaded refers ↔ refers entry.analyzed ∨ ReferencedElsewhere loaded self refers := by
  rw [referenced_iff, referencedElsewhere_iff]
  constructor
  · rintro ⟨other, found, hfound, hrefers⟩
    by_cases hself : other = self
    · subst hself
      cases hentry.symm.trans hfound
      exact Or.inl hrefers
    · exact Or.inr ⟨other, found, hself, hfound, hrefers⟩
  · rintro (hrefers | ⟨other, found, -, hfound, hrefers⟩)
    · exact ⟨self, entry, hentry, hrefers⟩
    · exact ⟨other, found, hfound, hrefers⟩

theorem referenced_iff_of_not_loaded (hself : loaded[self]? = none) :
    Referenced loaded refers ↔ ReferencedElsewhere loaded self refers := by
  rw [referenced_iff, referencedElsewhere_iff]
  constructor
  · rintro ⟨other, found, hfound, hrefers⟩
    refine ⟨other, found, ?_, hfound, hrefers⟩
    rintro rfl
    cases hself.symm.trans hfound
  · rintro ⟨other, found, -, hfound, hrefers⟩
    exact ⟨other, found, hfound, hrefers⟩

theorem referencedElsewhere_congr
    (hothers : ∀ other, other ≠ self → after[other]? = loaded[other]?) :
    ReferencedElsewhere after self refers ↔ ReferencedElsewhere loaded self refers := by
  rw [referencedElsewhere_iff, referencedElsewhere_iff]
  refine exists_congr fun other => exists_congr fun found => and_congr_right fun hne => ?_
  rw [hothers other hne]

end Referenced

/-! ## The probes see the references -/

section Probe

variable {catalog : Catalog} {entryIdOf : ScriptAddress → CatalogEntryId}

theorem Consistent.exists_schemaKey_iff (h : Consistent catalog entryIdOf)
    {database schema : Name} :
    (∃ rank entryId, qualifiedSchemaKey database schema rank entryId ∈
        catalog.entriesByQualifiedSchema) ↔
      Referenced catalog.scriptEntries
        (AnalyzedScript.refersToSchema (qualifiedSchema database schema)) := by
  rw [referenced_iff]
  constructor
  · rintro ⟨rank, entryId, hkey⟩
    obtain ⟨script, entry, hentry, -, -, href⟩ := (h.qualified_iff _ _ _ _).mp hkey
    exact ⟨script, entry, hentry, href⟩
  · rintro ⟨script, entry, hentry, href⟩
    exact ⟨entry.rank, entry.analyzed.catalogEntryId,
      (h.qualified_iff _ _ _ _).mpr ⟨script, entry, hentry, rfl, rfl, href⟩⟩

theorem Consistent.exists_databaseKey_iff (h : Consistent catalog entryIdOf) {database : Name} :
    (∃ schema rank entryId, qualifiedSchemaKey database schema rank entryId ∈
        catalog.entriesByQualifiedSchema) ↔
      Referenced catalog.scriptEntries (AnalyzedScript.refersToDatabase database) := by
  simp only [h.exists_schemaKey_iff, referenced_iff]
  constructor
  · rintro ⟨schema, script, entry, hentry, href⟩
    exact ⟨script, entry, hentry, entry.analyzed.database_of_schema database schema href⟩
  · rintro ⟨script, entry, hentry, href⟩
    obtain ⟨schema, hschema⟩ := entry.analyzed.schema_of_database database href
    exact ⟨schema, script, entry, hentry, hschema⟩

end Probe

/-! ## The operations -/

/-- The registered names are exactly those that loaded entries reference. -/
structure RegisteredExact (catalog : Catalog) : Prop where
  databases_iff : ∀ database, database ∈ catalog.databases ↔
    Referenced catalog.scriptEntries (AnalyzedScript.refersToDatabase database)
  schemas_iff : ∀ key, key ∈ catalog.schemas ↔
    Referenced catalog.scriptEntries (AnalyzedScript.refersToSchema key)

section Operations

variable {catalog : Catalog} {entryIdOf : ScriptAddress → CatalogEntryId} {self : ScriptAddress}
  {entry : ScriptEntry} {analyzed : AnalyzedScript} {rank : Rank}

section

variable (hexact : RegisteredExact catalog)

include hexact

/-- A first load registers the names of the analysis, if it does not throw. -/
theorem RegisteredExact.registerEntry (hself : self ∉ catalog.scriptEntries)
    (hdatabases : catalog.databaseConflict analyzed = false)
    (hschemas : catalog.schemaConflict analyzed = false) :
    RegisteredExact ((catalog.declare analyzed).registerEntry self analyzed rank) := by
  rw [registerEntry_eq]
  unfold declare
  rw [declaredDatabases_of_no_conflict hdatabases,
    declaredSchemas_of_no_conflict hdatabases hschemas]
  have hlookup : (catalog.scriptEntries.insertIfNew self ⟨analyzed, rank⟩)[self]? =
      some ⟨analyzed, rank⟩ := OrderedMap.getElem?_insertIfNew_of_fresh hself
  have hothers : ∀ other, other ≠ self →
      (catalog.scriptEntries.insertIfNew self ⟨analyzed, rank⟩)[other]? =
        catalog.scriptEntries[other]? := by
    intro other hother
    exact OrderedMap.getElem?_insertIfNew_of_ne hother
  have hafter : ∀ refers : AnalyzedScript → Prop,
      Referenced (catalog.scriptEntries.insertIfNew self ⟨analyzed, rank⟩) refers ↔
        refers analyzed ∨ Referenced catalog.scriptEntries refers := by
    intro refers
    rw [referenced_iff_of_loaded hlookup, referencedElsewhere_congr hothers,
      referenced_iff_of_not_loaded (OrderedMap.getElem?_eq_none_iff.mpr hself)]
  constructor
  · intro database
    dsimp only
    rw [OrderedMap.mem_foldl_insertIfNew, hafter, hexact.databases_iff]
    unfold AnalyzedScript.refersToDatabase AnalyzedScript.databaseNames
    rw [List.mem_map]
  · intro key
    dsimp only
    rw [OrderedMap.mem_foldl_insertIfNew, hafter, hexact.schemas_iff, exists_schemaReference_iff]
    rfl

theorem RegisteredExact.updateScript (h : Consistent catalog entryIdOf)
    (hentry : catalog.scriptEntries[self]? = some entry)
    (hid : analyzed.catalogEntryId = entryIdOf self)
    (hchanged : entry.analyzed.address ≠ analyzed.address) :
    RegisteredExact (catalog.updateScript self entry (entryIdOf self) analyzed).1 := by
  have hafter := h.updateScript hentry hid hchanged
  have hindex : (catalog.updateScript self entry (entryIdOf self) analyzed).1.entriesByQualifiedSchema =
      catalog.patchedIndex entry (entryIdOf self) analyzed := by
    rw [updateScript_of_changed hchanged]
  have hreferenced : ∀ refers : AnalyzedScript → Prop,
      Referenced (catalog.updateScript self entry (entryIdOf self) analyzed).1.scriptEntries
          refers ↔
        refers analyzed ∨ ReferencedElsewhere catalog.scriptEntries self refers := by
    intro refers
    rw [updateScript_of_changed hchanged]
    dsimp only
    rw [referenced_iff_of_loaded OrderedMap.getElem?_insert_self,
      referencedElsewhere_congr fun other hother => OrderedMap.getElem?_insert_of_ne hother]
  constructor
  · intro database
    have hbefore := hexact.databases_iff database
    rw [referenced_iff_of_loaded hentry] at hbefore
    rw [mem_databases_updateScript hchanged, ← hindex, hafter.exists_databaseKey_iff, hreferenced]
    unfold AnalyzedScript.refersToDatabase at hbefore ⊢
    tauto
  · intro key
    obtain ⟨database, schema, rfl⟩ : ∃ database schema, key = qualifiedSchema database schema :=
      ⟨_, _, rfl⟩
    have hbefore := hexact.schemas_iff (qualifiedSchema database schema)
    rw [referenced_iff_of_loaded hentry] at hbefore
    rw [mem_schemas_updateScript hchanged, ← hindex, hafter.exists_schemaKey_iff, hreferenced]
    unfold AnalyzedScript.refersToSchema at hbefore ⊢
    tauto

theorem RegisteredExact.dropScript (hentry : catalog.scriptEntries[self]? = some entry)
    {script : Script} :
    RegisteredExact (catalog.dropScript self script) ↔
      ∀ ref ∈ entry.analyzed.schemaReferences,
        ReferencedElsewhere catalog.scriptEntries self (AnalyzedScript.refersToSchema ref.key) := by
  have hreferenced : ∀ refers : AnalyzedScript → Prop,
      Referenced (catalog.dropScript self script).scriptEntries refers ↔
        ReferencedElsewhere catalog.scriptEntries self refers := by
    intro refers
    have herased : (catalog.dropScript self script).scriptEntries =
        catalog.scriptEntries.erase self := by
      simp only [Catalog.dropScript, hentry]
    rw [herased, referenced_iff_of_not_loaded OrderedMap.getElem?_erase_self,
      referencedElsewhere_congr fun other hother => OrderedMap.getElem?_erase_of_ne hother]
  have hdatabases : (catalog.dropScript self script).databases = catalog.databases := by
    simp only [Catalog.dropScript, hentry]
  have hschemas : (catalog.dropScript self script).schemas = catalog.schemas := by
    simp only [Catalog.dropScript, hentry]
  constructor
  · intro hafter ref href
    have hregistered : ref.key ∈ catalog.schemas := by
      rw [hexact.schemas_iff, referenced_iff]
      exact ⟨self, entry, hentry, exists_schemaReference_iff.mp ⟨ref, href, rfl⟩⟩
    rw [← hreferenced, ← hafter.schemas_iff, hschemas]
    exact hregistered
  · intro helsewhere
    have hschema : ∀ key, entry.analyzed.refersToSchema key →
        ReferencedElsewhere catalog.scriptEntries self (AnalyzedScript.refersToSchema key) := by
      intro key hkey
      obtain ⟨ref, href, rfl⟩ := exists_schemaReference_iff.mpr hkey
      exact helsewhere ref href
    constructor
    · intro database
      rw [hdatabases, hexact.databases_iff, hreferenced, referenced_iff_of_loaded hentry]
      refine or_iff_right_of_imp fun hdatabase => ?_
      -- some schema of the database is referenced elsewhere, and with it the database
      obtain ⟨schema, hkey⟩ := entry.analyzed.schema_of_database database hdatabase
      obtain ⟨other, found, hne, hfound, hrefers⟩ :=
        referencedElsewhere_iff.mp (hschema _ hkey)
      exact referencedElsewhere_iff.mpr ⟨other, found, hne, hfound,
        found.analyzed.database_of_schema database schema hrefers⟩
    · intro key
      rw [hschemas, hexact.schemas_iff, hreferenced, referenced_iff_of_loaded hentry]
      exact or_iff_right_of_imp (hschema key)

/-- Clearing keeps the registered names exact if and only if no loaded entry
references anything. -/
theorem RegisteredExact.clear :
    RegisteredExact catalog.clear ↔
      ∀ item ∈ catalog.scriptEntries.toList, item.2.analyzed.schemaReferences = [] := by
  have hnone : ∀ refers : AnalyzedScript → Prop,
      ¬ Referenced catalog.clear.scriptEntries refers := by
    intro refers
    simp [referenced_iff, Catalog.clear]
  constructor
  · intro hafter item hitem
    rw [List.eq_nil_iff_forall_not_mem]
    intro ref href
    have hregistered : ref.key ∈ catalog.schemas := by
      rw [hexact.schemas_iff]
      exact ⟨item, hitem, exists_schemaReference_iff.mp ⟨ref, href, rfl⟩⟩
    exact hnone _ ((hafter.schemas_iff ref.key).mp hregistered)
  · intro hempty
    have hschema : ∀ item ∈ catalog.scriptEntries.toList, ∀ key,
        ¬ item.2.analyzed.refersToSchema key := by
      intro item hitem key hkey
      obtain ⟨ref, href, -⟩ := exists_schemaReference_iff.mpr hkey
      simp [hempty item hitem] at href
    constructor
    · intro database
      refine iff_of_false ?_ (hnone _)
      intro hregistered
      obtain ⟨item, hitem, hdatabase⟩ := (hexact.databases_iff database).mp hregistered
      obtain ⟨schema, hkey⟩ := item.2.analyzed.schema_of_database database hdatabase
      exact hschema item hitem _ hkey
    · intro key
      refine iff_of_false ?_ (hnone _)
      intro hregistered
      obtain ⟨item, hitem, hkey⟩ := (hexact.schemas_iff key).mp hregistered
      exact hschema item hitem key hkey

end

end Operations

/-! ## Runs -/

namespace World

/-- The operation leaves no name behind that it should forget: a load does not
fail after it registered a name, a drop takes no last reference, and a clear
finds no references. -/
def StepForgetsNothing (world : World) : Event → Prop
  | .load self _ => ¬ RegistersBeforeConflict world.catalog self (world.scripts self)
  | .drop self => ∀ entry ∈ world.catalog.scriptEntries[self]?,
      ∀ ref ∈ entry.analyzed.schemaReferences, ReferencedElsewhere world.catalog.scriptEntries self
        (AnalyzedScript.refersToSchema ref.key)
  | .clear => ∀ item ∈ world.catalog.scriptEntries.toList, item.2.analyzed.schemaReferences = []
  | .analyze _ _ => True
  | .analyzeElsewhere _ _ => True

theorem registeredExact_step {world : World} {event : Event}
    (h : Consistent world.catalog world.entryIdOf) (hexact : RegisteredExact world.catalog)
    (hforgets : world.StepForgetsNothing event) :
    RegisteredExact (world.step event).catalog := by
  have htransition := transition_step world event
  generalize (world.step event).catalog = after at htransition ⊢
  cases htransition with
  | analyzed self refs databaseId schemaId => exact ⟨hexact.databases_iff, hexact.schemas_iff⟩
  | analyzedElsewhere self analyzed => exact hexact
  | unchanged self rank => exact hexact
  | conflict self rank analyzed hfirst hconflict =>
    have hkept : ¬ RegistersBeforeConflict world.catalog self (world.scripts self) := hforgets
    rw [registersBeforeConflict_iff hfirst hconflict, not_not] at hkept
    rw [hkept]
    exact hexact
  | updated self rank entry analyzed hentry hanalyzed hchanged =>
    exact hexact.updateScript h hentry (entryId_of_analyzed hanalyzed) hchanged
  | loaded self rank analyzed hfirst hdatabases hschemas =>
    exact hexact.registerEntry hfirst.not_loaded hdatabases hschemas
  | dropped self =>
    cases hentry : world.catalog.scriptEntries[self]? with
    | none =>
      have hsame : world.catalog.dropScript self (world.scripts self) = world.catalog := by
        simp only [Catalog.dropScript, hentry]
      rw [hsame]
      exact hexact
    | some entry =>
      rw [hexact.dropScript hentry]
      exact hforgets entry hentry
  | cleared => exact hexact.clear.mpr hforgets

/-- In a run whose operations leave no name behind, the registered databases and
schemas are exactly those that a loaded entry references. -/
theorem registeredExact_of_run {address : ℕ} {catalogOf : ScriptAddress → ℕ}
    {entryIdOf : ScriptAddress → CatalogEntryId} {events : List Event}
    (hmeets : RunMeets StepForgetsNothing (initial address catalogOf entryIdOf) events) :
    RegisteredExact ((initial address catalogOf entryIdOf).run events).catalog := by
  have hrun := run_invariant
    (fun world : World =>
      Consistent world.catalog world.entryIdOf ∧ RegisteredExact world.catalog)
    (fun world event hinv hforgets =>
      ⟨consistent_step event hinv.1, registeredExact_step hinv.1 hinv.2 hforgets⟩)
    ⟨consistent_initial address catalogOf entryIdOf,
      by constructor <;> simp [initial, Catalog.empty, referenced_iff]⟩ hmeets
  exact hrun.2

/-- Two scripts reference `d.a`; one is dropped, the other moves on to `e.b`. -/
theorem registeredExact_of_run_sharedSchema :
    RegisteredExact ((initial 0 (fun _ => 0) id).run
      [.analyze 1 [([100], [97])], .load 1 0, .analyze 2 [([100], [97])], .load 2 0, .drop 1,
        .analyze 2 [([101], [98])], .load 2 0]).catalog :=
  registeredExact_of_run
    ⟨trivial, not_registersBeforeConflict_of_ok 0 (by decide), trivial,
      not_registersBeforeConflict_of_ok 0 (by decide),
      by unfold StepForgetsNothing; decide, trivial,
      not_registersBeforeConflict_of_ok 0 (by decide), trivial⟩

/-- After the only script is dropped, its database is still registered. -/
theorem registeredExact_fails :
    ¬ ∀ events : List Event, RegisteredExact ((initial 0 (fun _ => 0) id).run events).catalog := by
  intro hclaim
  have hexact := hclaim [.analyze 1 [([100], [97])], .load 1 0, .drop 1]
  have hleft : ([100] : Name) ∈ ((initial 0 (fun _ => 0) id).run
      [.analyze 1 [([100], [97])], .load 1 0, .drop 1]).catalog.databases := by
    decide
  obtain ⟨item, hitem, -⟩ := (hexact.databases_iff [100]).mp hleft
  have hnone : ((initial 0 (fun _ => 0) id).run [.analyze 1 [([100], [97])], .load 1 0,
      .drop 1]).catalog.scriptEntries.toList.length = 0 := by
    decide
  rw [List.length_eq_zero_iff.mp hnone] at hitem
  cases hitem

end World

end DashQL.Catalog
