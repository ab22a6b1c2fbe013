import DashQL.Catalog.Operations

/-!
# The indexes agree with the loaded entries

`entries`, `entries_ranked` and `entries_by_qualified_schema` say the same thing
as `script_entries`, in every state of every run (`Consistent`).  The argument is
the same for the three: an operation replaces the entry of one script, every
other entry has another id, so only keys with the id of that script may change.

`entries_by_schema` has one key for a schema name however many databases have a
schema of that name, and `UpdateScript` erases the key as soon as one of them
disappears.  It is exact along runs in which no update drops one of several
schemas of a name (`entriesBySchema_exact_of_run`).
-/

namespace DashQL.Catalog

open OrderedMap (getElem?_erase_of_ne getElem?_erase_self getElem?_insertIfNew_of_fresh getElem?_insert_self mem_foldl_erase mem_of_getElem?)

/-- Some script is loaded under `entryId`, with an entry of which `holds` is true. -/
def LoadedAs (loaded : OrderedMap ScriptAddress ScriptEntry) (entryId : CatalogEntryId)
    (holds : ScriptEntry → Prop) : Prop :=
  ∃ (self : ScriptAddress) (entry : ScriptEntry), loaded[self]? = some entry ∧
    entry.analyzed.catalogEntryId = entryId ∧ holds entry

theorem loadedAs_of_any {loaded : OrderedMap ScriptAddress ScriptEntry} {entryId : CatalogEntryId}
    {holds : ScriptEntry → Prop} [DecidablePred holds] (self : ScriptAddress)
    (h : (loaded[self]?.any fun entry =>
      decide (entry.analyzed.catalogEntryId = entryId ∧ holds entry)) = true) :
    LoadedAs loaded entryId holds := by
  rw [Option.any_eq_true] at h
  obtain ⟨entry, hentry, hholds⟩ := h
  exact ⟨self, entry, hentry, of_decide_eq_true hholds⟩

/-- No two loaded scripts share an entry id. -/
def DistinctIds (loaded : OrderedMap ScriptAddress ScriptEntry) : Prop :=
  ∀ (self other : ScriptAddress) (entry entry' : ScriptEntry), loaded[self]? = some entry →
    loaded[other]? = some entry' →
    entry.analyzed.catalogEntryId = entry'.analyzed.catalogEntryId → self = other

/-- What `script_entries` has to do with the other maps. -/
structure Consistent (catalog : Catalog) (entryIdOf : ScriptAddress → CatalogEntryId) : Prop where
  entry_id : ∀ self entry, catalog.scriptEntries[self]? = some entry →
    entry.analyzed.catalogEntryId = entryIdOf self
  distinct : DistinctIds catalog.scriptEntries
  entries_iff : ∀ entryId analyzed, catalog.entries[entryId]? = some analyzed ↔
    LoadedAs catalog.scriptEntries entryId fun entry => entry.analyzed = analyzed
  ranked_iff : ∀ rank entryId, toLex (rank, entryId) ∈ catalog.entriesRanked ↔
    LoadedAs catalog.scriptEntries entryId fun entry => entry.rank = rank
  qualified_iff : ∀ database schema rank entryId,
    qualifiedSchemaKey database schema rank entryId ∈ catalog.entriesByQualifiedSchema ↔
      LoadedAs catalog.scriptEntries entryId fun entry => entry.rank = rank ∧
        qualifiedSchema database schema ∈ entry.analyzed.schemasByQualifiedName

/-- `entries_by_schema` has a key for an entry and a schema name exactly when the
entry references a schema of that name in some database. -/
def SchemaIndexExact (catalog : Catalog) : Prop :=
  ∀ schema rank entryId, schemaKey schema rank entryId ∈ catalog.entriesBySchema ↔
    LoadedAs catalog.scriptEntries entryId fun entry => entry.rank = rank ∧
      ∃ database, qualifiedSchema database schema ∈ entry.analyzed.schemasByQualifiedName

/-! ## Replacing the entry of one script -/

/-- The loaded entries before and after an operation on the script `key`, whose
entry id is `entryId`. -/
structure ReplacedAt (before after : OrderedMap ScriptAddress ScriptEntry) (key : ScriptAddress)
    (entryId : CatalogEntryId) : Prop where
  others : ∀ other, other ≠ key → after[other]? = before[other]?
  id_before : ∀ entry : ScriptEntry, before[key]? = some entry →
    entry.analyzed.catalogEntryId = entryId
  id_after : ∀ entry : ScriptEntry, after[key]? = some entry →
    entry.analyzed.catalogEntryId = entryId
  distinct : ∀ (other : ScriptAddress) (entry : ScriptEntry), other ≠ key →
    before[other]? = some entry →
    entry.analyzed.catalogEntryId ≠ entryId

namespace ReplacedAt

variable {before after : OrderedMap ScriptAddress ScriptEntry} {self : ScriptAddress}
  {entryId : CatalogEntryId} {holds : ScriptEntry → Prop}

section

variable (h : ReplacedAt before after self entryId)

include h

theorem symm : ReplacedAt after before self entryId where
  others other hne := (h.others other hne).symm
  id_before := h.id_after
  id_after := h.id_before
  distinct other entry hne hentry := h.distinct other entry hne (h.others other hne ▸ hentry)

theorem loadedAs_iff {entry : ScriptEntry} (hentry : after[self]? = some entry) :
    LoadedAs after entryId holds ↔ holds entry := by
  constructor
  · rintro ⟨other, found, hfound, hid, hholds⟩
    by_cases hself : other = self
    · subst hself
      exact Option.some.inj (hentry.symm.trans hfound) ▸ hholds
    · rw [h.others other hself] at hfound
      exact absurd hid (h.distinct other found hself hfound)
  · exact fun hholds => ⟨self, entry, hentry, h.id_after entry hentry, hholds⟩

theorem not_loadedAs (hnone : after[self]? = none) : ¬ LoadedAs after entryId holds := by
  rintro ⟨other, found, hfound, hid, -⟩
  by_cases hself : other = self
  · subst hself
    cases hnone.symm.trans hfound
  · rw [h.others other hself] at hfound
    exact h.distinct other found hself hfound hid

theorem loadedAs_after {otherId : CatalogEntryId} (hne : otherId ≠ entryId)
    (hloaded : LoadedAs before otherId holds) : LoadedAs after otherId holds := by
  obtain ⟨other, entry, hentry, rfl, hholds⟩ := hloaded
  by_cases hself : other = self
  · subst hself
    exact absurd (h.id_before entry hentry) hne
  · exact ⟨other, entry, (h.others other hself).symm ▸ hentry, rfl, hholds⟩

/-- The entries under other ids stay as they are. -/
theorem other_iff {otherId : CatalogEntryId} (hne : otherId ≠ entryId) :
    LoadedAs after otherId holds ↔ LoadedAs before otherId holds :=
  ⟨h.symm.loadedAs_after hne, h.loadedAs_after hne⟩

theorem distinct_after (hdistinct : DistinctIds before) : DistinctIds after := by
  intro script other entry entry' hentry hentry' hid
  by_cases hscript : script = self
  · by_cases hother : other = self
    · rw [hscript, hother]
    · subst hscript
      rw [h.id_after entry hentry] at hid
      exact absurd hid.symm (h.distinct other entry' hother (h.others other hother ▸ hentry'))
  · rw [h.others script hscript] at hentry
    by_cases hother : other = self
    · subst hother
      rw [h.id_after entry' hentry'] at hid
      exact absurd hid (h.distinct script entry hscript hentry)
    · rw [h.others other hother] at hentry'
      exact hdistinct script other entry entry' hentry hentry' hid

end

end ReplacedAt

/-! ## The operations keep the maps consistent -/

section Operations

variable {catalog : Catalog} {entryIdOf : ScriptAddress → CatalogEntryId} {self : ScriptAddress}
  {entry : ScriptEntry} {analyzed : AnalyzedScript} {rank : Rank}

section

variable (h : Consistent catalog entryIdOf)

include h

theorem Consistent.replacedAt_of_loaded (hentry : catalog.scriptEntries[self]? = some entry)
    {after : OrderedMap ScriptAddress ScriptEntry}
    (hothers : ∀ other, other ≠ self → after[other]? = catalog.scriptEntries[other]?)
    (hafter : ∀ entry : ScriptEntry, after[self]? = some entry → entry.analyzed.catalogEntryId = entryIdOf self) :
    ReplacedAt catalog.scriptEntries after self (entryIdOf self) where
  others := hothers
  id_before := h.entry_id self
  id_after := hafter
  distinct := by
    intro other entry' hother hentry' hid
    rw [← h.entry_id self entry hentry] at hid
    exact hother (h.distinct other self entry' entry hentry' hentry hid)

theorem Consistent.not_loadedAs_of_free {entryId : CatalogEntryId}
    (hfree : entryId ∉ catalog.entries) (holds : ScriptEntry → Prop) :
    ¬ LoadedAs catalog.scriptEntries entryId holds := by
  rintro ⟨other, entry, hentry, hid, -⟩
  have hloaded := (h.entries_iff entryId entry.analyzed).mpr ⟨other, entry, hentry, hid, rfl⟩
  exact hfree (mem_of_getElem? hloaded)

end

theorem ReplacedAt.entry_id_after {before after : OrderedMap ScriptAddress ScriptEntry}
    (h : ReplacedAt before after self (entryIdOf self))
    (hbefore : ∀ (script : ScriptAddress) (entry : ScriptEntry), before[script]? = some entry →
      entry.analyzed.catalogEntryId = entryIdOf script)
    (script : ScriptAddress) (entry : ScriptEntry) (hentry : after[script]? = some entry) :
    entry.analyzed.catalogEntryId = entryIdOf script := by
  by_cases hscript : script = self
  · subst hscript
    exact h.id_after entry hentry
  · rw [h.others script hscript] at hentry
    exact hbefore script entry hentry

section

variable (h : Consistent catalog entryIdOf)

include h

theorem Consistent.replacedAt_insertIfNew (rank : Rank) (hself : self ∉ catalog.scriptEntries)
    (hfree : entryIdOf self ∉ catalog.entries) (hid : analyzed.catalogEntryId = entryIdOf self) :
    ReplacedAt catalog.scriptEntries (catalog.scriptEntries.insertIfNew self ⟨analyzed, rank⟩)
      self (entryIdOf self) where
  others _ hother := OrderedMap.getElem?_insertIfNew_of_ne hother
  id_before entry hentry := absurd (mem_of_getElem? hentry) hself
  id_after entry hentry := by
    rw [getElem?_insertIfNew_of_fresh hself] at hentry
    cases hentry
    exact hid
  distinct other entry' _ hentry' hid' :=
    h.not_loadedAs_of_free hfree (fun _ => True) ⟨other, entry', hentry', hid', trivial⟩

theorem Consistent.replacedAt_insert (hentry : catalog.scriptEntries[self]? = some entry)
    (hid : analyzed.catalogEntryId = entryIdOf self) :
    ReplacedAt catalog.scriptEntries
      (catalog.scriptEntries.insert self { entry with analyzed := analyzed }) self
      (entryIdOf self) := by
  refine h.replacedAt_of_loaded hentry ?_ ?_
  · intro other hother
    exact OrderedMap.getElem?_insert_of_ne hother
  · intro entry' hentry'
    rw [getElem?_insert_self] at hentry'
    cases hentry'
    exact hid

theorem Consistent.replacedAt_erase (hentry : catalog.scriptEntries[self]? = some entry) :
    ReplacedAt catalog.scriptEntries (catalog.scriptEntries.erase self) self (entryIdOf self) := by
  refine h.replacedAt_of_loaded hentry ?_ ?_
  · intro other hother
    exact getElem?_erase_of_ne hother
  · intro entry' hentry'
    rw [getElem?_erase_self] at hentry'
    cases hentry'

theorem Consistent.registerEntry (hself : self ∉ catalog.scriptEntries)
    (hfree : entryIdOf self ∉ catalog.entries) (hid : analyzed.catalogEntryId = entryIdOf self) :
    Consistent (catalog.registerEntry self analyzed rank) entryIdOf := by
  rw [registerEntry_eq, hid]
  have hreplaced := h.replacedAt_insertIfNew rank hself hfree hid
  have hnone : ∀ holds, ¬ LoadedAs catalog.scriptEntries (entryIdOf self) holds :=
    h.not_loadedAs_of_free hfree
  refine ⟨hreplaced.entry_id_after h.entry_id, hreplaced.distinct_after h.distinct, ?_, ?_, ?_⟩
  · intro entryId analyzed'
    dsimp only
    by_cases hkey : entryId = entryIdOf self
    · subst hkey
      rw [getElem?_insertIfNew_of_fresh hfree, hreplaced.loadedAs_iff (getElem?_insertIfNew_of_fresh hself)]
      simp
    · rw [OrderedMap.getElem?_insertIfNew_of_ne hkey, hreplaced.other_iff hkey, h.entries_iff]
  · intro rank' entryId
    dsimp only
    rw [OrderedMap.mem_insertIfNew_iff, h.ranked_iff]
    by_cases hkey : entryId = entryIdOf self
    · subst hkey
      rw [or_iff_left (hnone _), hreplaced.loadedAs_iff (getElem?_insertIfNew_of_fresh hself)]
      simp [eq_comm]
    · rw [hreplaced.other_iff hkey]
      simp [hkey]
  · intro database schema rank' entryId
    dsimp only
    rw [OrderedMap.mem_foldl_insertIfNew, exists_qualifiedKey_iff, exists_schemaReference_iff,
      h.qualified_iff]
    by_cases hkey : entryId = entryIdOf self
    · subst hkey
      rw [or_iff_left (hnone _), hreplaced.loadedAs_iff (getElem?_insertIfNew_of_fresh hself)]
      simp [eq_comm]
    · rw [hreplaced.other_iff hkey]
      simp [hkey]

theorem Consistent.updateScript (hentry : catalog.scriptEntries[self]? = some entry)
    (hid : analyzed.catalogEntryId = entryIdOf self)
    (hchanged : entry.analyzed.address ≠ analyzed.address) :
    Consistent (catalog.updateScript self entry (entryIdOf self) analyzed).1 entryIdOf := by
  rw [updateScript_of_changed hchanged]
  have hreplaced := h.replacedAt_insert hentry hid
  refine ⟨hreplaced.entry_id_after h.entry_id, hreplaced.distinct_after h.distinct, ?_, ?_, ?_⟩
  · intro entryId analyzed'
    dsimp only
    by_cases hkey : entryId = entryIdOf self
    · subst hkey
      rw [getElem?_insert_self, hreplaced.loadedAs_iff getElem?_insert_self]
      simp
    · rw [OrderedMap.getElem?_insert_of_ne hkey, hreplaced.other_iff hkey, h.entries_iff]
  · intro rank' entryId
    dsimp only
    rw [h.ranked_iff]
    by_cases hkey : entryId = entryIdOf self
    · subst hkey
      rw [hreplaced.loadedAs_iff getElem?_insert_self, hreplaced.symm.loadedAs_iff hentry]
    · rw [hreplaced.other_iff hkey]
  · intro database schema rank' entryId
    dsimp only
    rw [mem_patchedIndex, h.qualified_iff]
    by_cases hkey : entryId = entryIdOf self
    · subst hkey
      rw [hreplaced.loadedAs_iff getElem?_insert_self, hreplaced.symm.loadedAs_iff hentry]
      simp only [eq_comm (a := rank'), and_true]
      tauto
    · rw [hreplaced.other_iff hkey]
      simp [hkey]

theorem Consistent.dropScript {script : Script} (hid : script.catalogEntryId = entryIdOf self) :
    Consistent (catalog.dropScript self script) entryIdOf := by
  unfold Catalog.dropScript
  split
  · exact h
  next entry hentry =>
  dsimp only
  rw [hid]
  have hreplaced := h.replacedAt_erase hentry
  refine ⟨hreplaced.entry_id_after h.entry_id, hreplaced.distinct_after h.distinct, ?_, ?_, ?_⟩
  · intro entryId analyzed'
    dsimp only
    by_cases hkey : entryId = entryIdOf self
    · subst hkey
      rw [getElem?_erase_self, iff_false_intro (hreplaced.not_loadedAs getElem?_erase_self)]
      simp
    · rw [getElem?_erase_of_ne hkey, hreplaced.other_iff hkey, h.entries_iff]
  · intro rank' entryId
    dsimp only
    rw [OrderedMap.mem_erase_iff, h.ranked_iff]
    by_cases hkey : entryId = entryIdOf self
    · subst hkey
      rw [iff_false_intro (hreplaced.not_loadedAs getElem?_erase_self), hreplaced.symm.loadedAs_iff hentry]
      simp [eq_comm]
    · rw [hreplaced.other_iff hkey]
      simp [hkey]
  · intro database schema rank' entryId
    dsimp only
    rw [mem_foldl_erase, exists_qualifiedKey_iff, exists_schemaReference_iff, h.qualified_iff]
    by_cases hkey : entryId = entryIdOf self
    · subst hkey
      rw [iff_false_intro (hreplaced.not_loadedAs getElem?_erase_self), hreplaced.symm.loadedAs_iff hentry]
      simp [eq_comm]
    · rw [hreplaced.other_iff hkey]
      simp [hkey]

end

theorem Consistent.declare (h : Consistent catalog entryIdOf) (analyzed : AnalyzedScript) :
    Consistent (catalog.declare analyzed) entryIdOf :=
  ⟨h.entry_id, h.distinct, h.entries_iff, h.ranked_iff, h.qualified_iff⟩

theorem Consistent.clear (catalog : Catalog) (entryIdOf : ScriptAddress → CatalogEntryId) :
    Consistent catalog.clear entryIdOf := by
  constructor <;> simp [Catalog.clear, LoadedAs, DistinctIds]

/-! ## The index by schema name -/

theorem SchemaIndexExact.registerEntry (hexact : SchemaIndexExact catalog)
    (h : Consistent catalog entryIdOf) (hself : self ∉ catalog.scriptEntries)
    (hfree : entryIdOf self ∉ catalog.entries) (hid : analyzed.catalogEntryId = entryIdOf self) :
    SchemaIndexExact (catalog.registerEntry self analyzed rank) := by
  rw [registerEntry_eq, hid]
  have hreplaced := h.replacedAt_insertIfNew rank hself hfree hid
  intro schema rank' entryId
  dsimp only
  rw [OrderedMap.mem_foldl_insertIfNew, exists_schemaKey_iff, hexact schema rank' entryId]
  simp only [exists_schemaReference_iff]
  by_cases hkey : entryId = entryIdOf self
  · subst hkey
    rw [or_iff_left (h.not_loadedAs_of_free hfree _), hreplaced.loadedAs_iff (getElem?_insertIfNew_of_fresh hself)]
    simp [eq_comm]
  · rw [hreplaced.other_iff hkey]
    simp [hkey]

/-- No schema disappears whose name is still referenced, unless another schema of
that name appears. -/
def KeepsSharedSchemas (previous analyzed : AnalyzedScript) : Prop :=
  ∀ gone ∈ previous.schemasMissingFrom analyzed,
    (∃ ref ∈ analyzed.schemaReferences, ref.schemaName = gone.schemaName) →
    ∃ ref ∈ analyzed.schemasMissingFrom previous, ref.schemaName = gone.schemaName

instance (previous analyzed : AnalyzedScript) : Decidable (KeepsSharedSchemas previous analyzed) :=
  inferInstanceAs (Decidable (∀ _ ∈ _, _))

theorem exists_schemaName_iff {refs : List SchemaReference} {schema : Name} :
    (∃ ref ∈ refs, ref.schemaName = schema) ↔
      ∃ database, ∃ ref ∈ refs, ref.key = qualifiedSchema database schema := by
  simp only [SchemaReference.key, qualifiedSchema_inj]
  constructor
  · rintro ⟨ref, href, hschema⟩
    exact ⟨ref.databaseName, ref, href, rfl, hschema⟩
  · rintro ⟨database, ref, href, -, hschema⟩
    exact ⟨ref, href, hschema⟩

theorem keepsSharedSchemas_iff {previous analyzed : AnalyzedScript} :
    KeepsSharedSchemas previous analyzed ↔ ∀ schema,
      (∃ database, qualifiedSchema database schema ∈ previous.schemasByQualifiedName ∧
        qualifiedSchema database schema ∉ analyzed.schemasByQualifiedName) →
      (∃ database, qualifiedSchema database schema ∈ analyzed.schemasByQualifiedName) →
      ∃ database, qualifiedSchema database schema ∈ analyzed.schemasByQualifiedName ∧
        qualifiedSchema database schema ∉ previous.schemasByQualifiedName := by
  have hmissing : ∀ (a b : AnalyzedScript) (schema : Name),
      (∃ ref ∈ a.schemasMissingFrom b, ref.schemaName = schema) ↔
        ∃ database, qualifiedSchema database schema ∈ a.schemasByQualifiedName ∧
          qualifiedSchema database schema ∉ b.schemasByQualifiedName := by
    intro a b schema
    rw [exists_schemaName_iff]
    exact exists_congr fun database => exists_schemasMissingFrom_iff
  have hstays : ∀ schema, (∃ ref ∈ analyzed.schemaReferences, ref.schemaName = schema) ↔
      ∃ database, qualifiedSchema database schema ∈ analyzed.schemasByQualifiedName := by
    intro schema
    rw [exists_schemaName_iff]
    exact exists_congr fun database => exists_schemaReference_iff
  unfold KeepsSharedSchemas
  constructor
  · intro hkeeps schema hgone hstay
    obtain ⟨gone, hmem, rfl⟩ := (hmissing previous analyzed schema).mpr hgone
    exact (hmissing analyzed previous _).mp (hkeeps gone hmem ((hstays _).mpr hstay))
  · intro hkeeps gone hmem hstay
    exact (hmissing analyzed previous _).mpr
      (hkeeps gone.schemaName ((hmissing previous analyzed _).mp ⟨gone, hmem, rfl⟩)
        ((hstays _).mp hstay))

theorem SchemaIndexExact.updateScript (hexact : SchemaIndexExact catalog)
    (h : Consistent catalog entryIdOf) (hentry : catalog.scriptEntries[self]? = some entry)
    (hid : analyzed.catalogEntryId = entryIdOf self)
    (hchanged : entry.analyzed.address ≠ analyzed.address) :
    SchemaIndexExact (catalog.updateScript self entry (entryIdOf self) analyzed).1 ↔
      KeepsSharedSchemas entry.analyzed analyzed := by
  have hreplaced := h.replacedAt_insert hentry hid
  -- Only the key of the updated entry can be wrong, if its name is lost and referenced.
  have hkeys : ∀ schema rank' entryId,
      (schemaKey schema rank' entryId ∈
          (catalog.updateScript self entry (entryIdOf self) analyzed).1.entriesBySchema ↔
        LoadedAs (catalog.updateScript self entry (entryIdOf self) analyzed).1.scriptEntries entryId
          fun entry => entry.rank = rank' ∧ ∃ database,
            qualifiedSchema database schema ∈ entry.analyzed.schemasByQualifiedName) ↔
      (rank' = entry.rank ∧ entryId = entryIdOf self →
        (∃ database, qualifiedSchema database schema ∈ entry.analyzed.schemasByQualifiedName ∧
          qualifiedSchema database schema ∉ analyzed.schemasByQualifiedName) →
        (∃ database, qualifiedSchema database schema ∈ analyzed.schemasByQualifiedName) →
        ∃ database, qualifiedSchema database schema ∈ analyzed.schemasByQualifiedName ∧
          qualifiedSchema database schema ∉ entry.analyzed.schemasByQualifiedName) := by
    intro schema rank' entryId
    have hlogic : ∀ new gone both : Prop,
        ((new ∨ ¬ gone ∧ (gone ∨ both)) ↔ (new ∨ both)) ↔ (gone → new ∨ both → new) := by
      intro new gone both
      tauto
    have hsplit : ∀ previous next : AnalyzedScript,
        (∃ database, qualifiedSchema database schema ∈ next.schemasByQualifiedName) ↔
          (∃ database, qualifiedSchema database schema ∈ next.schemasByQualifiedName ∧
            qualifiedSchema database schema ∉ previous.schemasByQualifiedName) ∨
          ∃ database, qualifiedSchema database schema ∈ next.schemasByQualifiedName ∧
            qualifiedSchema database schema ∈ previous.schemasByQualifiedName := by
      intro previous next
      rw [← exists_or]
      exact exists_congr fun database => by tauto
    rw [mem_entriesBySchema_updateScript hchanged, hexact, scriptEntries_updateScript hchanged]
    by_cases hkey : entryId = entryIdOf self
    · subst hkey
      rw [hreplaced.loadedAs_iff getElem?_insert_self, hreplaced.symm.loadedAs_iff hentry]
      by_cases hrank : rank' = entry.rank
      · simp only [hrank, true_and, and_self, forall_const]
        rw [hsplit entry.analyzed analyzed, hsplit analyzed entry.analyzed]
        simp only [and_comm (a := qualifiedSchema _ schema ∈ analyzed.schemasByQualifiedName)]
        exact hlogic _ _ _
      · simp [hrank, Ne.symm hrank]
    · rw [hreplaced.other_iff hkey]
      simp [hkey]
  rw [keepsSharedSchemas_iff]
  constructor
  · intro hafter schema
    exact (hkeys schema entry.rank (entryIdOf self)).mp (hafter _ _ _) ⟨rfl, rfl⟩
  · intro hkeeps schema rank' entryId
    exact (hkeys schema rank' entryId).mpr fun _ => hkeeps schema

theorem SchemaIndexExact.dropScript (hexact : SchemaIndexExact catalog)
    (h : Consistent catalog entryIdOf) {script : Script}
    (hid : script.catalogEntryId = entryIdOf self) :
    SchemaIndexExact (catalog.dropScript self script) := by
  unfold Catalog.dropScript
  split
  · exact hexact
  next entry hentry =>
  dsimp only
  rw [hid]
  have hreplaced := h.replacedAt_erase hentry
  intro schema rank' entryId
  dsimp only
  rw [mem_foldl_erase, exists_schemaKey_iff, hexact schema rank' entryId]
  simp only [exists_schemaReference_iff]
  by_cases hkey : entryId = entryIdOf self
  · subst hkey
    rw [iff_false_intro (hreplaced.not_loadedAs getElem?_erase_self), hreplaced.symm.loadedAs_iff hentry]
    simp [eq_comm]
  · rw [hreplaced.other_iff hkey]
    simp [hkey]

theorem SchemaIndexExact.clear (catalog : Catalog) : SchemaIndexExact catalog.clear := by
  simp [SchemaIndexExact, Catalog.clear, LoadedAs]

end Operations

/-! ## Runs -/

namespace World

theorem consistent_step {world : World} (event : Event)
    (h : Consistent world.catalog world.entryIdOf) :
    Consistent (world.step event).catalog (world.step event).entryIdOf := by
  rw [entryIdOf_step]
  have htransition := transition_step world event
  generalize (world.step event).catalog = after at htransition ⊢
  cases htransition with
  | analyzed self refs databaseId schemaId =>
    exact ⟨h.entry_id, h.distinct, h.entries_iff, h.ranked_iff, h.qualified_iff⟩
  | analyzedElsewhere self analyzed => exact h
  | unchanged self rank => exact h
  | conflict self rank analyzed hfirst hconflict => exact h.declare analyzed
  | updated self rank entry analyzed hentry hanalyzed hchanged =>
    exact h.updateScript hentry (entryId_of_analyzed hanalyzed) hchanged
  | loaded self rank analyzed hfirst hdatabases hschemas =>
    exact (h.declare analyzed).registerEntry hfirst.not_loaded hfirst.entry_free
      (entryId_of_analyzed hfirst.analyzed_eq)
  | dropped self => exact h.dropScript rfl
  | cleared => exact .clear world.catalog world.entryIdOf

theorem consistent_initial (address : ℕ) (catalogOf : ScriptAddress → ℕ)
    (entryIdOf : ScriptAddress → CatalogEntryId) :
    Consistent (initial address catalogOf entryIdOf).catalog
      (initial address catalogOf entryIdOf).entryIdOf := by
  constructor <;> simp [initial, Catalog.empty, LoadedAs, DistinctIds]

/-- In every run the indexes by id, by rank and by qualified schema are those of the loaded
scripts, and no two of them share an id. -/
theorem consistent_indexes_of_run (address : ℕ) (catalogOf : ScriptAddress → ℕ)
    (entryIdOf : ScriptAddress → CatalogEntryId) (events : List Event) :
    Consistent ((initial address catalogOf entryIdOf).run events).catalog
      ((initial address catalogOf entryIdOf).run events).entryIdOf := by
  have h := consistent_initial address catalogOf entryIdOf
  generalize initial address catalogOf entryIdOf = world at h
  induction events generalizing world with
  | nil => exact h
  | cons event rest ih => exact ih (world.step event) (consistent_step event h)

/-- The operation is not an update that breaks the schema key of its entry. -/
def StepKeepsSharedSchemas (world : World) : Event → Prop
  | .load self _ => ∀ entry ∈ world.catalog.scriptEntries[self]?,
      ∀ analyzed ∈ (world.scripts self).analyzedScript,
      entry.analyzed.address ≠ analyzed.address → KeepsSharedSchemas entry.analyzed analyzed
  | _ => True

instance (world : World) : ∀ event, Decidable (world.StepKeepsSharedSchemas event)
  | .load _ _ => inferInstanceAs (Decidable (∀ _ ∈ _, ∀ _ ∈ _, _ → KeepsSharedSchemas _ _))
  | .analyze _ _ | .analyzeElsewhere _ _ | .drop _ | .clear => inferInstanceAs (Decidable True)

theorem schemaIndexExact_step {world : World} {event : Event}
    (h : Consistent world.catalog world.entryIdOf) (hexact : SchemaIndexExact world.catalog)
    (hkeeps : world.StepKeepsSharedSchemas event) :
    SchemaIndexExact (world.step event).catalog := by
  have htransition := transition_step world event
  generalize (world.step event).catalog = after at htransition ⊢
  cases htransition with
  | analyzed self refs databaseId schemaId => exact hexact
  | analyzedElsewhere self analyzed => exact hexact
  | unchanged self rank => exact hexact
  | conflict self rank analyzed hfirst hconflict => exact hexact
  | updated self rank entry analyzed hentry hanalyzed hchanged =>
    rw [hexact.updateScript h hentry (entryId_of_analyzed hanalyzed) hchanged]
    exact hkeeps entry hentry analyzed hanalyzed hchanged
  | loaded self rank analyzed hfirst hdatabases hschemas =>
    exact SchemaIndexExact.registerEntry hexact (h.declare analyzed) hfirst.not_loaded
      hfirst.entry_free (entryId_of_analyzed hfirst.analyzed_eq)
  | dropped self => exact hexact.dropScript h rfl
  | cleared => exact .clear world.catalog

/-- Both indexes are exactly those implied by the loaded entries. -/
def IndexesExact (catalog : Catalog) : Prop :=
  (∀ database schema rank entryId,
    qualifiedSchemaKey database schema rank entryId ∈ catalog.entriesByQualifiedSchema ↔
      LoadedAs catalog.scriptEntries entryId fun entry => entry.rank = rank ∧
        qualifiedSchema database schema ∈ entry.analyzed.schemasByQualifiedName) ∧
  SchemaIndexExact catalog

/-- In a run without an update that breaks a schema key, both indexes are exact
in the state reached. -/
theorem indexesExact_of_run {address : ℕ} {catalogOf : ScriptAddress → ℕ}
    {entryIdOf : ScriptAddress → CatalogEntryId} {events : List Event}
    (hmeets : RunMeets StepKeepsSharedSchemas (initial address catalogOf entryIdOf) events) :
    IndexesExact ((initial address catalogOf entryIdOf).run events).catalog := by
  have hrun := run_invariant
    (fun world : World =>
      Consistent world.catalog world.entryIdOf ∧ SchemaIndexExact world.catalog)
    (fun world event hinv hkeeps =>
      ⟨consistent_step event hinv.1, schemaIndexExact_step hinv.1 hinv.2 hkeeps⟩)
    ⟨consistent_initial address catalogOf entryIdOf,
      by simp [initial, Catalog.empty, SchemaIndexExact, LoadedAs]⟩ hmeets
  exact ⟨hrun.1.qualified_iff, hrun.2⟩

/-- Script 1 loses `d.a` and gains `e.a` in one update, and is dropped in the end. -/
theorem indexesExact_of_run_movedSchema :
    IndexesExact ((initial 0 (fun _ => 0) id).run
      [.analyze 1 [([100], [97])], .load 1 0, .analyze 1 [([101], [97])], .load 1 0,
        .drop 1]).catalog :=
  indexesExact_of_run (by decide)

/-- Script 1 references `d.a` and `e.a`, is loaded, and after a new analysis
references `d.a` only. -/
def droppedTwinRun : World :=
  (initial 0 (fun _ => 0) id).run
    [.analyze 1 [([100], [97]), ([101], [97])], .load 1 0, .analyze 1 [([100], [97])], .load 1 0]

/-- The update erases the one key of the name `a`, although `d.a` is still there. -/
theorem indexesExact_fails :
    ¬ ∀ events : List Event, IndexesExact ((initial 0 (fun _ => 0) id).run events).catalog := by
  intro hclaim
  have hexact : SchemaIndexExact droppedTwinRun.catalog := (hclaim _).2
  have herased : schemaKey [97] 0 1 ∉ droppedTwinRun.catalog.entriesBySchema := by decide
  have hloaded : LoadedAs droppedTwinRun.catalog.scriptEntries 1 fun entry => entry.rank = 0 ∧
      qualifiedSchema [100] [97] ∈ entry.analyzed.schemasByQualifiedName :=
    loadedAs_of_any 1 (by decide)
  obtain ⟨self, entry, hentry, hid, hrank, href⟩ := hloaded
  exact herased ((hexact [97] 0 1).mpr ⟨self, entry, hentry, hid, hrank, [100], href⟩)

end World

end DashQL.Catalog
