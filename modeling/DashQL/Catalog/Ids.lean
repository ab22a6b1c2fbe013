import DashQL.Catalog.Registered

/-!
# The ids of the loaded entries

An id is chosen when a script is analyzed and registered when it is loaded, so
two analyses made before either script is loaded may choose different ids for one
name.  A first load compares every id with the registered one and throws; an
update compares nothing.  `idsAgree_of_run` says that the missing comparison is
all there is: as long as no update brings a name that is registered under another
id, every loaded entry has the registered ids.
-/

namespace DashQL.Catalog

open List

/-- Every name that a loaded entry references is registered, under the id that
the entry has for it. -/
structure IdsAgree (catalog : Catalog) : Prop where
  database : ∀ (self : ScriptAddress) (entry : ScriptEntry),
    catalog.scriptEntries[self]? = some entry → ∀ ref ∈ entry.analyzed.databasesByName,
      ∃ declaration, catalog.databases[ref.databaseName]? = some declaration ∧
        declaration.objectId = ref.objectId
  schema : ∀ (self : ScriptAddress) (entry : ScriptEntry),
    catalog.scriptEntries[self]? = some entry → ∀ ref ∈ entry.analyzed.schemaReferences,
      ∃ declaration, catalog.schemas[ref.key]? = some declaration ∧
        declaration.objectId = ref.objectId

/-- Two loaded entries have the same id for the same name. -/
structure SameIds (catalog : Catalog) : Prop where
  database : ∀ (self other : ScriptAddress) (entry entry' : ScriptEntry),
    catalog.scriptEntries[self]? = some entry → catalog.scriptEntries[other]? = some entry' →
    ∀ ref ∈ entry.analyzed.databasesByName, ∀ ref' ∈ entry'.analyzed.databasesByName,
      ref.databaseName = ref'.databaseName → ref.objectId = ref'.objectId
  schema : ∀ (self other : ScriptAddress) (entry entry' : ScriptEntry),
    catalog.scriptEntries[self]? = some entry → catalog.scriptEntries[other]? = some entry' →
    ∀ ref ∈ entry.analyzed.schemaReferences, ∀ ref' ∈ entry'.analyzed.schemaReferences,
      ref.key = ref'.key → ref.objectId = ref'.objectId

theorem IdsAgree.sameIds {catalog : Catalog} (h : IdsAgree catalog) : SameIds catalog := by
  constructor
  · intro self other entry entry' hentry hentry' ref href ref' href' hname
    obtain ⟨declaration, hlookup, hid⟩ := h.database self entry hentry ref href
    obtain ⟨declaration', hlookup', hid'⟩ := h.database other entry' hentry' ref' href'
    rw [hname, hlookup'] at hlookup
    cases hlookup
    exact hid.symm.trans hid'
  · intro self other entry entry' hentry hentry' ref href ref' href' hname
    obtain ⟨declaration, hlookup, hid⟩ := h.schema self entry hentry ref href
    obtain ⟨declaration', hlookup', hid'⟩ := h.schema other entry' hentry' ref' href'
    rw [hname, hlookup'] at hlookup
    cases hlookup
    exact hid.symm.trans hid'

section Operations

variable {catalog : Catalog} {entryIdOf : ScriptAddress → CatalogEntryId} {self : ScriptAddress}
  {entry : ScriptEntry} {analyzed : AnalyzedScript} {rank : Rank}

/-! ## Declaring and loading -/

theorem declaredDatabases_nodup (catalog : Catalog) (analyzed : AnalyzedScript) :
    ((catalog.declaredDatabases analyzed).map DatabaseReference.databaseName).Nodup :=
  analyzed.databases_nodup.sublist ((takeWhile_sublist _).map _)

theorem declaredSchemas_nodup (catalog : Catalog) (analyzed : AnalyzedScript) :
    ((catalog.declaredSchemas analyzed).map SchemaReference.key).Nodup := by
  unfold declaredSchemas
  split
  · exact nodup_nil
  · exact (schemaReferences_nodup analyzed).sublist ((takeWhile_sublist _).map _)

theorem databases_declare_eq_some_iff {database : Name} {declaration : DatabaseReference} :
    (catalog.declare analyzed).databases[database]? = some declaration ↔
      catalog.databases[database]? = some declaration ∨ database ∉ catalog.databases ∧
        ∃ ref ∈ catalog.declaredDatabases analyzed, ref.databaseName = database ∧
          ref = declaration :=
  OrderedMap.getElem?_foldl_insertIfNew_eq_some_iff (declaredDatabases_nodup catalog analyzed)

theorem schemas_declare_eq_some_iff {key : QualifiedSchema} {declaration : SchemaReference} :
    (catalog.declare analyzed).schemas[key]? = some declaration ↔
      catalog.schemas[key]? = some declaration ∨ key ∉ catalog.schemas ∧
        ∃ ref ∈ catalog.declaredSchemas analyzed, ref.key = key ∧ ref = declaration :=
  OrderedMap.getElem?_foldl_insertIfNew_eq_some_iff (declaredSchemas_nodup catalog analyzed)

/-- Declaring keeps the names that are registered. -/
theorem IdsAgree.declare (h : IdsAgree catalog) (analyzed : AnalyzedScript) :
    IdsAgree (catalog.declare analyzed) := by
  constructor
  · intro self entry hentry ref href
    obtain ⟨declaration, hlookup, hid⟩ := h.database self entry hentry ref href
    exact ⟨declaration, databases_declare_eq_some_iff.mpr (Or.inl hlookup), hid⟩
  · intro self entry hentry ref href
    obtain ⟨declaration, hlookup, hid⟩ := h.schema self entry hentry ref href
    exact ⟨declaration, schemas_declare_eq_some_iff.mpr (Or.inl hlookup), hid⟩

/-- A first load without conflict registers the ids of the analysis. -/
theorem IdsAgree.registerEntry (h : IdsAgree catalog) (hself : self ∉ catalog.scriptEntries)
    (hdatabases : catalog.databaseConflict analyzed = false)
    (hschemas : catalog.schemaConflict analyzed = false) :
    IdsAgree ((catalog.declare analyzed).registerEntry self analyzed rank) := by
  have hdeclared := h.declare analyzed
  have hfresh : self ∉ (catalog.declare analyzed).scriptEntries := hself
  rw [registerEntry_eq]
  constructor
  · intro other entry hentry ref href
    dsimp only at hentry ⊢
    by_cases hother : other = self
    · subst hother
      rw [OrderedMap.getElem?_insertIfNew_of_fresh hfresh] at hentry
      cases hentry
      by_cases hregistered : ref.databaseName ∈ catalog.databases
      · obtain ⟨declaration, hlookup⟩ := OrderedMap.exists_getElem?_of_mem hregistered
        exact ⟨declaration, databases_declare_eq_some_iff.mpr (Or.inl hlookup),
          objectId_eq_of_no_databaseConflict hdatabases href hlookup⟩
      · rw [← declaredDatabases_of_no_conflict hdatabases] at href
        exact ⟨ref, databases_declare_eq_some_iff.mpr
          (Or.inr ⟨hregistered, ref, href, rfl, rfl⟩), rfl⟩
    · rw [OrderedMap.getElem?_insertIfNew_of_ne hother] at hentry
      exact hdeclared.database other entry hentry ref href
  · intro other entry hentry ref href
    dsimp only at hentry ⊢
    by_cases hother : other = self
    · subst hother
      rw [OrderedMap.getElem?_insertIfNew_of_fresh hfresh] at hentry
      cases hentry
      by_cases hregistered : ref.key ∈ catalog.schemas
      · obtain ⟨declaration, hlookup⟩ := OrderedMap.exists_getElem?_of_mem hregistered
        exact ⟨declaration, schemas_declare_eq_some_iff.mpr (Or.inl hlookup),
          objectId_eq_of_no_schemaConflict hschemas href hlookup⟩
      · rw [← declaredSchemas_of_no_conflict hdatabases hschemas] at href
        exact ⟨ref, schemas_declare_eq_some_iff.mpr
          (Or.inr ⟨hregistered, ref, href, rfl, rfl⟩), rfl⟩
    · rw [OrderedMap.getElem?_insertIfNew_of_ne hother] at hentry
      exact hdeclared.schema other entry hentry ref href

/-! ## Updating -/

/-- After an update, the names of the new analysis are registered, and those the
other entries reference have not lost their keys. -/
theorem IdsAgree.updateScript (hagree : IdsAgree catalog) (h : Consistent catalog entryIdOf)
    (hentry : catalog.scriptEntries[self]? = some entry)
    (hid : analyzed.catalogEntryId = entryIdOf self)
    (hchanged : entry.analyzed.address ≠ analyzed.address)
    (hdatabases : catalog.databaseConflict analyzed = false)
    (hschemas : catalog.schemaConflict analyzed = false) :
    IdsAgree (catalog.updateScript self entry (entryIdOf self) analyzed).1 := by
  have hafter := h.updateScript hentry hid hchanged
  have hindex : (catalog.updateScript self entry (entryIdOf self) analyzed).1.entriesByQualifiedSchema =
      catalog.patchedIndex entry (entryIdOf self) analyzed := by
    rw [updateScript_of_changed hchanged]
  have hentries : (catalog.updateScript self entry (entryIdOf self) analyzed).1.scriptEntries =
      catalog.scriptEntries.insert self { entry with analyzed := analyzed } := by
    rw [updateScript_of_changed hchanged]
  constructor
  · intro other found hfound ref href
    have hfound' := hfound
    rw [hentries] at hfound'
    simp only [databases_updateScript_eq_some_iff hchanged, ← hindex, hafter.exists_databaseKey_iff]
    have hreferenced := referenced_iff.mpr ⟨other, found, hfound,
      show found.analyzed.refersToDatabase ref.databaseName from mem_map_of_mem href⟩
    by_cases hother : other = self
    · subst hother
      rw [OrderedMap.getElem?_insert_self] at hfound'
      cases hfound'
      by_cases hregistered : ref.databaseName ∈ catalog.databases
      · obtain ⟨declaration, hlookup⟩ := OrderedMap.exists_getElem?_of_mem hregistered
        exact ⟨declaration, ⟨fun _ _ => hreferenced, Or.inl hlookup⟩,
          objectId_eq_of_no_databaseConflict hdatabases href hlookup⟩
      · -- the previous analysis did not have the name, or it would be registered
        have hnew : ref.databaseName ∉ entry.analyzed.databaseNames := by
          intro hprevious
          obtain ⟨old, hold, hname⟩ := mem_map.mp hprevious
          obtain ⟨declaration, hlookup, -⟩ := hagree.database other entry hentry old hold
          exact hregistered (hname ▸ OrderedMap.mem_of_getElem? hlookup)
        exact ⟨⟨ref.objectId, ref.databaseName, []⟩,
          ⟨fun _ _ => hreferenced, Or.inr ⟨hregistered, hnew, ref, href, rfl, rfl⟩⟩, rfl⟩
    · rw [OrderedMap.getElem?_insert_of_ne hother] at hfound'
      obtain ⟨declaration, hlookup, hdeclared⟩ := hagree.database other found hfound' ref href
      exact ⟨declaration, ⟨fun _ _ => hreferenced, Or.inl hlookup⟩, hdeclared⟩
  · intro other found hfound ref href
    have hfound' := hfound
    rw [hentries] at hfound'
    unfold SchemaReference.key
    simp only [schemas_updateScript_eq_some_iff hchanged, ← hindex, hafter.exists_schemaKey_iff]
    have hreferenced := referenced_iff.mpr ⟨other, found, hfound,
      show found.analyzed.refersToSchema ref.key from
        exists_schemaReference_iff.mp ⟨ref, href, rfl⟩⟩
    by_cases hother : other = self
    · subst hother
      rw [OrderedMap.getElem?_insert_self] at hfound'
      cases hfound'
      by_cases hregistered : ref.key ∈ catalog.schemas
      · obtain ⟨declaration, hlookup⟩ := OrderedMap.exists_getElem?_of_mem hregistered
        exact ⟨declaration, Or.inl ⟨hlookup, fun _ _ => hreferenced⟩,
          objectId_eq_of_no_schemaConflict hschemas href hlookup⟩
      · have hnew : ref.key ∉ entry.analyzed.schemasByQualifiedName := by
          intro hprevious
          obtain ⟨old, hold, hname⟩ := exists_schemaReference_iff.mpr hprevious
          obtain ⟨declaration, hlookup, -⟩ := hagree.schema other entry hentry old hold
          exact hregistered (hname ▸ OrderedMap.mem_of_getElem? hlookup)
        exact ⟨ref, Or.inr ⟨hregistered, hnew, mem_schemaReferences.mp href⟩, rfl⟩
    · rw [OrderedMap.getElem?_insert_of_ne hother] at hfound'
      obtain ⟨declaration, hlookup, hdeclared⟩ := hagree.schema other found hfound' ref href
      exact ⟨declaration, Or.inl ⟨hlookup, fun _ _ => hreferenced⟩, hdeclared⟩

/-- A drop only takes entries away. -/
theorem IdsAgree.dropScript (hagree : IdsAgree catalog) {script : Script} :
    IdsAgree (catalog.dropScript self script) := by
  unfold Catalog.dropScript
  split
  · exact hagree
  next entry hentry =>
  have hkept : ∀ (other : ScriptAddress) (found : ScriptEntry),
      (catalog.scriptEntries.erase self)[other]? = some found →
        catalog.scriptEntries[other]? = some found := by
    intro other found hfound
    by_cases hother : other = self
    · rw [hother, OrderedMap.getElem?_erase_self] at hfound
      cases hfound
    · rwa [OrderedMap.getElem?_erase_of_ne hother] at hfound
  constructor
  · exact fun other found hfound => hagree.database other found (hkept other found hfound)
  · exact fun other found hfound => hagree.schema other found (hkept other found hfound)

end Operations

/-! ## Runs -/

namespace World

/-- The operation is not an update with a new analysis that has, for a registered
name, another id. -/
def StepKeepsIds (world : World) : Event → Prop
  | .load self _ => ∀ entry ∈ world.catalog.scriptEntries[self]?,
      ∀ analyzed ∈ (world.scripts self).analyzedScript, entry.analyzed.address ≠ analyzed.address →
        world.catalog.databaseConflict analyzed = false ∧
          world.catalog.schemaConflict analyzed = false
  | _ => True

instance (world : World) : ∀ event, Decidable (world.StepKeepsIds event)
  | .load _ _ => inferInstanceAs (Decidable (∀ _ ∈ _, ∀ _ ∈ _, _ → _ = false ∧ _ = false))
  | .analyze _ _ | .analyzeElsewhere _ _ | .drop _ | .clear => inferInstanceAs (Decidable True)

theorem idsAgree_step {world : World} {event : Event}
    (h : Consistent world.catalog world.entryIdOf) (hagree : IdsAgree world.catalog)
    (hkeeps : world.StepKeepsIds event) : IdsAgree (world.step event).catalog := by
  have htransition := transition_step world event
  generalize (world.step event).catalog = after at htransition ⊢
  cases htransition with
  | analyzed self refs databaseId schemaId => exact ⟨hagree.database, hagree.schema⟩
  | analyzedElsewhere self analyzed => exact hagree
  | unchanged self rank => exact hagree
  | conflict self rank analyzed hfirst hconflict => exact hagree.declare analyzed
  | updated self rank entry analyzed hentry hanalyzed hchanged =>
    obtain ⟨hdatabases, hschemas⟩ := hkeeps entry hentry analyzed hanalyzed hchanged
    exact hagree.updateScript h hentry (entryId_of_analyzed hanalyzed) hchanged hdatabases hschemas
  | loaded self rank analyzed hfirst hdatabases hschemas =>
    exact hagree.registerEntry hfirst.not_loaded hdatabases hschemas
  | dropped self => exact hagree.dropScript
  | cleared => constructor <;> simp [Catalog.clear]

theorem consistent_idsAgree_run {address : ℕ} {catalogOf : ScriptAddress → ℕ}
    {entryIdOf : ScriptAddress → CatalogEntryId} {events : List Event}
    (hmeets : RunMeets StepKeepsIds (initial address catalogOf entryIdOf) events) :
    Consistent ((initial address catalogOf entryIdOf).run events).catalog
        ((initial address catalogOf entryIdOf).run events).entryIdOf ∧
      IdsAgree ((initial address catalogOf entryIdOf).run events).catalog :=
  run_invariant
    (fun world : World =>
      Consistent world.catalog world.entryIdOf ∧ IdsAgree world.catalog)
    (fun world event hinv hkeeps =>
      ⟨consistent_step event hinv.1, idsAgree_step hinv.1 hinv.2 hkeeps⟩)
    ⟨consistent_initial address catalogOf entryIdOf,
      by constructor <;> simp [initial, Catalog.empty]⟩ hmeets

/-- In a run whose updates bring no id that differs from a registered one, every
loaded entry has the registered ids, and so any two loaded entries have the same
id for the same name. -/
theorem idsAgree_of_run {address : ℕ} {catalogOf : ScriptAddress → ℕ}
    {entryIdOf : ScriptAddress → CatalogEntryId} {events : List Event}
    (hmeets : RunMeets StepKeepsIds (initial address catalogOf entryIdOf) events) :
    IdsAgree ((initial address catalogOf entryIdOf).run events).catalog ∧
      SameIds ((initial address catalogOf entryIdOf).run events).catalog := by
  obtain ⟨-, hagree⟩ := consistent_idsAgree_run hmeets
  exact ⟨hagree, hagree.sameIds⟩

/-- Script 2 is analyzed again after script 1 is loaded, and gets its ids. -/
theorem idsAgree_of_run_reanalyzed :
    IdsAgree ((initial 0 (fun _ => 0) id).run
        [.analyze 2 [], .load 2 0, .analyze 1 [([100], [115])], .load 1 0,
          .analyze 2 [([100], [115])], .load 2 0]).catalog ∧
      SameIds ((initial 0 (fun _ => 0) id).run
        [.analyze 2 [], .load 2 0, .analyze 1 [([100], [115])], .load 1 0,
          .analyze 2 [([100], [115])], .load 2 0]).catalog :=
  idsAgree_of_run (by decide)

/-- The same, but script 2 is analyzed before script 1 is loaded. -/
def staleAnalysisRun : World :=
  (initial 0 (fun _ => 0) id).run
    [.analyze 2 [], .load 2 0, .analyze 1 [([100], [115])], .analyze 2 [([100], [115])],
      .load 1 0, .load 2 0]

/-- The update of script 2 throws nothing and leaves it with an id of its own. -/
theorem idsAgree_fails :
    ¬ ∀ events : List Event, IdsAgree ((initial 0 (fun _ => 0) id).run events).catalog := by
  intro hclaim
  have hagree : IdsAgree staleAnalysisRun.catalog := hclaim _
  have hregistered : (staleAnalysisRun.catalog.databases[([100] : Name)]?.map
      DatabaseReference.objectId) = some (.database 256) := by
    decide
  have hloaded : Referenced staleAnalysisRun.catalog.scriptEntries fun analyzed =>
      ∃ ref ∈ analyzed.databasesByName, ref.databaseName = [100] ∧ ref.objectId = .database 257 := by
    unfold Referenced
    decide
  obtain ⟨self, entry, hentry, ref, href, hname, hid⟩ := referenced_iff.mp hloaded
  obtain ⟨declaration, hlookup, hsame⟩ := hagree.database self entry hentry ref href
  rw [hname] at hlookup
  rw [hlookup, Option.map_some, hsame, hid] at hregistered
  exact absurd hregistered (by decide)

end World

end DashQL.Catalog
