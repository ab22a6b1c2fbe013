import DashQL.Catalog.Tables

/-!
# The entries that a lookup visits

A lookup goes through the keys of an index.  In every state of every run the keys
stand for loaded entries under their ranks, also in `entries_by_schema`, which may
lack keys but has none too many, and they come in the order of the ranks
(`Visited`).
-/

namespace DashQL.Catalog

open List
open OrderedMap (keys_sorted mem_iff_exists_getElem? mem_toList_iff)

/-- A key of `entries_by_schema` stands for a loaded entry that references a schema of
the name. -/
def SchemaIndexSound (catalog : Catalog) : Prop :=
  ∀ schema rank entryId, schemaKey schema rank entryId ∈ catalog.entriesBySchema →
    LoadedAs catalog.scriptEntries entryId fun entry => entry.rank = rank ∧
      ∃ database, qualifiedSchema database schema ∈ entry.analyzed.schemasByQualifiedName

section Operations

variable {catalog : Catalog} {entryIdOf : ScriptAddress → CatalogEntryId} {self : ScriptAddress}
  {entry : ScriptEntry} {analyzed : AnalyzedScript} {rank : Rank}

section

variable (hsound : SchemaIndexSound catalog)

include hsound

theorem SchemaIndexSound.registerEntry (h : Consistent catalog entryIdOf)
    (hself : self ∉ catalog.scriptEntries) (hfree : entryIdOf self ∉ catalog.entries)
    (hid : analyzed.catalogEntryId = entryIdOf self) :
    SchemaIndexSound (catalog.registerEntry self analyzed rank) := by
  rw [registerEntry_eq, hid]
  have hreplaced := h.replacedAt_insertIfNew rank hself hfree hid
  intro schema rank' entryId hmem
  dsimp only at hmem ⊢
  rw [OrderedMap.mem_foldl_insertIfNew, exists_schemaKey_iff] at hmem
  simp only [exists_schemaReference_iff] at hmem
  rcases hmem with ⟨⟨rfl, rfl⟩, hdatabase⟩ | hold
  · rw [hreplaced.loadedAs_iff (OrderedMap.getElem?_insertIfNew_of_fresh hself)]
    exact ⟨rfl, hdatabase⟩
  · have hloaded := hsound schema rank' entryId hold
    by_cases hkey : entryId = entryIdOf self
    · subst hkey
      exact absurd hloaded (h.not_loadedAs_of_free hfree _)
    · exact (hreplaced.other_iff hkey).mpr hloaded

theorem SchemaIndexSound.updateScript (h : Consistent catalog entryIdOf)
    (hentry : catalog.scriptEntries[self]? = some entry)
    (hid : analyzed.catalogEntryId = entryIdOf self)
    (hchanged : entry.analyzed.address ≠ analyzed.address) :
    SchemaIndexSound (catalog.updateScript self entry (entryIdOf self) analyzed).1 := by
  have hreplaced := h.replacedAt_insert hentry hid
  intro schema rank' entryId hmem
  rw [mem_entriesBySchema_updateScript hchanged] at hmem
  rw [scriptEntries_updateScript hchanged]
  rcases hmem with ⟨hself, database, hnew, -⟩ | ⟨hkept, hold⟩
  · obtain ⟨rfl, rfl⟩ := hself
    rw [hreplaced.loadedAs_iff OrderedMap.getElem?_insert_self]
    exact ⟨rfl, database, hnew⟩
  · have hloaded := hsound schema rank' entryId hold
    by_cases hkey : entryId = entryIdOf self
    · subst hkey
      rw [hreplaced.symm.loadedAs_iff hentry] at hloaded
      obtain ⟨rfl, database, hdatabase⟩ := hloaded
      rw [hreplaced.loadedAs_iff OrderedMap.getElem?_insert_self]
      refine ⟨rfl, database, ?_⟩
      -- a schema that is gone takes the key with it
      by_contra hgone
      exact hkept ⟨⟨rfl, rfl⟩, database, hdatabase, hgone⟩
    · exact (hreplaced.other_iff hkey).mpr hloaded

theorem SchemaIndexSound.dropScript (h : Consistent catalog entryIdOf) {script : Script}
    (hid : script.catalogEntryId = entryIdOf self) :
    SchemaIndexSound (catalog.dropScript self script) := by
  unfold Catalog.dropScript
  split
  · exact hsound
  next entry hentry =>
  dsimp only
  rw [hid]
  have hreplaced := h.replacedAt_erase hentry
  intro schema rank' entryId hmem
  dsimp only at hmem ⊢
  rw [OrderedMap.mem_foldl_erase, exists_schemaKey_iff] at hmem
  simp only [exists_schemaReference_iff] at hmem
  obtain ⟨hkept, hold⟩ := hmem
  have hloaded := hsound schema rank' entryId hold
  by_cases hkey : entryId = entryIdOf self
  · subst hkey
    rw [hreplaced.symm.loadedAs_iff hentry] at hloaded
    obtain ⟨rfl, hdatabase⟩ := hloaded
    exact absurd ⟨⟨rfl, rfl⟩, hdatabase⟩ hkept
  · exact (hreplaced.other_iff hkey).mpr hloaded

end

end Operations

/-! ## Visited entries -/

/-- Loaded entries with their ranks, in the order of the ranks. -/
structure Visited (catalog : Catalog) (entries : List (Rank × CatalogEntryId)) : Prop where
  ranked : ∀ entry ∈ entries, toLex (entry.1, entry.2) ∈ catalog.entriesRanked
  sorted : entries.Pairwise fun entry other => entry.1 ≤ other.1
  nodup : entries.Nodup

theorem Visited.filter {catalog : Catalog} {entries : List (Rank × CatalogEntryId)}
    (h : Visited catalog entries) (p : Rank × CatalogEntryId → Bool) :
    Visited catalog (entries.filter p) where
  ranked := fun entry hentry => h.ranked entry (mem_of_mem_filter hentry)
  sorted := h.sorted.filter p
  nodup := h.nodup.filter p

section Visited

variable {catalog : Catalog} {entryIdOf : ScriptAddress → CatalogEntryId}

variable {entryId : CatalogEntryId}

section

variable (h : Consistent catalog entryIdOf)

include h

theorem Consistent.rank_unique {rank rank' : Rank}
    (hrank : toLex (rank, entryId) ∈ catalog.entriesRanked)
    (hrank' : toLex (rank', entryId) ∈ catalog.entriesRanked) : rank = rank' := by
  obtain ⟨self, entry, hentry, hid, rfl⟩ := (h.ranked_iff rank entryId).mp hrank
  obtain ⟨other, entry', hentry', hid', rfl⟩ := (h.ranked_iff rank' entryId).mp hrank'
  obtain rfl := h.distinct self other entry entry' hentry hentry' (hid.trans hid'.symm)
  rw [hentry] at hentry'
  rw [Option.some.inj hentry']

theorem Consistent.exists_entry {rank : Rank}
    (hrank : toLex (rank, entryId) ∈ catalog.entriesRanked) :
    ∃ analyzed, catalog.entries[entryId]? = some analyzed := by
  obtain ⟨self, entry, hentry, hid, -⟩ := (h.ranked_iff rank entryId).mp hrank
  exact ⟨entry.analyzed, (h.entries_iff entryId _).mpr ⟨self, entry, hentry, hid, rfl⟩⟩

theorem Consistent.exists_rank {analyzed : AnalyzedScript}
    (hentry : catalog.entries[entryId]? = some analyzed) :
    analyzed.catalogEntryId = entryId ∧ ∃ rank, toLex (rank, entryId) ∈ catalog.entriesRanked := by
  obtain ⟨self, entry, hloaded, hid, rfl⟩ := (h.entries_iff entryId analyzed).mp hentry
  exact ⟨hid, entry.rank, (h.ranked_iff entry.rank entryId).mpr ⟨self, entry, hloaded, hid, rfl⟩⟩

end

theorem mem_entriesOfQualifiedSchema {databaseName schemaName : Name} {rank : Rank} :
    (rank, entryId) ∈ catalog.entriesOfQualifiedSchema databaseName schemaName ↔
      qualifiedSchemaKey databaseName schemaName rank entryId ∈
        catalog.entriesByQualifiedSchema := by
  rw [entriesOfQualifiedSchema, mem_map, mem_iff_exists_getElem?]
  constructor
  · rintro ⟨⟨key, info⟩, hmem, heq⟩
    obtain ⟨hentry, hschema⟩ := mem_filter.mp hmem
    obtain ⟨database, schema, rank', entryId', rfl⟩ := exists_eq_qualifiedSchemaKey key
    have hschema : database = databaseName ∧ schema = schemaName := of_decide_eq_true hschema
    obtain ⟨rfl, rfl⟩ := hschema
    have heq : (rank', entryId') = (rank, entryId) := heq
    obtain ⟨rfl, rfl⟩ := Prod.mk.inj heq
    exact ⟨info, mem_toList_iff.mp hentry⟩
  · rintro ⟨info, hinfo⟩
    refine ⟨(qualifiedSchemaKey databaseName schemaName rank entryId, info), ?_, rfl⟩
    exact mem_filter.mpr ⟨mem_toList_iff.mpr hinfo, by simp [qualifiedSchemaKey]⟩

theorem mem_entriesOfSchema {schemaName : Name} {rank : Rank} :
    (rank, entryId) ∈ catalog.entriesOfSchema schemaName ↔
      schemaKey schemaName rank entryId ∈ catalog.entriesBySchema := by
  rw [entriesOfSchema, mem_map, mem_iff_exists_getElem?]
  constructor
  · rintro ⟨⟨key, info⟩, hmem, heq⟩
    obtain ⟨hentry, hschema⟩ := mem_filter.mp hmem
    obtain ⟨schema, rank', entryId', rfl⟩ : ∃ schema rank' entryId',
        key = schemaKey schema rank' entryId' := ⟨_, _, _, rfl⟩
    have hschema : schema = schemaName := of_decide_eq_true hschema
    obtain rfl := hschema
    have heq : (rank', entryId') = (rank, entryId) := heq
    obtain ⟨rfl, rfl⟩ := Prod.mk.inj heq
    exact ⟨info, mem_toList_iff.mp hentry⟩
  · rintro ⟨info, hinfo⟩
    refine ⟨(schemaKey schemaName rank entryId, info), ?_, rfl⟩
    exact mem_filter.mpr ⟨mem_toList_iff.mpr hinfo, by simp [schemaKey]⟩

theorem mem_rankedEntries {rank : Rank} :
    (rank, entryId) ∈ catalog.rankedEntries ↔ toLex (rank, entryId) ∈ catalog.entriesRanked := by
  rw [rankedEntries, mem_map, mem_iff_exists_getElem?]
  constructor
  · rintro ⟨⟨key, info⟩, hmem, heq⟩
    obtain rfl : key = toLex (rank, entryId) := heq
    exact ⟨info, mem_toList_iff.mp hmem⟩
  · rintro ⟨info, hinfo⟩
    exact ⟨(toLex (rank, entryId), info), mem_toList_iff.mpr hinfo, rfl⟩

/-- The part of an index that starts with the same names lists entries by rank. -/
theorem sorted_of_probe {κ α : Type} [LinearOrder κ] {m : OrderedMap κ α} {q : κ → Bool}
    {ranked : κ → Rank × CatalogEntryId}
    (hle : ∀ key key', q key = true → q key' = true → key < key' → (ranked key).1 ≤ (ranked key').1)
    (hinj : ∀ key key', q key = true → q key' = true → ranked key = ranked key' → key = key') :
    let entries := (m.toList.filter fun entry => q entry.1).map fun entry => ranked entry.1
    entries.Pairwise (fun entry other => entry.1 ≤ other.1) ∧ entries.Nodup := by
  intro entries
  have hsorted := (keys_sorted m).filter fun entry => q entry.1
  constructor
  · rw [pairwise_map]
    refine hsorted.imp_of_mem ?_
    intro entry other hentry hother hlt
    exact hle _ _ (mem_filter.mp hentry).2 (mem_filter.mp hother).2 hlt
  · refine pairwise_map.mpr (hsorted.imp_of_mem ?_)
    intro entry other hentry hother hlt heq
    exact hlt.ne (hinj _ _ (mem_filter.mp hentry).2 (mem_filter.mp hother).2 heq)

theorem visited_entriesOfQualifiedSchema (h : Consistent catalog entryIdOf)
    (databaseName schemaName : Name) :
    Visited catalog (catalog.entriesOfQualifiedSchema databaseName schemaName) := by
  have hle : ∀ key key' : QualifiedSchemaKey,
      decide ((ofLex key).1 = databaseName ∧ (ofLex (ofLex key).2).1 = schemaName) = true →
      decide ((ofLex key').1 = databaseName ∧ (ofLex (ofLex key').2).1 = schemaName) = true →
      key < key' →
      (ofLex (ofLex (ofLex key).2).2).1 ≤ (ofLex (ofLex (ofLex key').2).2).1 := by
    intro key key' hkey hkey' hlt
    obtain ⟨hdatabase, hschema⟩ := of_decide_eq_true hkey
    obtain ⟨hdatabase', hschema'⟩ := of_decide_eq_true hkey'
    rw [Prod.Lex.lt_iff, hdatabase, hdatabase'] at hlt
    rcases hlt with hlt | ⟨-, hlt⟩
    · exact absurd hlt (lt_irrefl _)
    rw [Prod.Lex.lt_iff, hschema, hschema'] at hlt
    rcases hlt with hlt | ⟨-, hlt⟩
    · exact absurd hlt (lt_irrefl _)
    rcases Prod.Lex.lt_iff.mp hlt with hlt | ⟨heq, -⟩
    · exact hlt.le
    · exact heq.le
  have hinj : ∀ key key' : QualifiedSchemaKey,
      decide ((ofLex key).1 = databaseName ∧ (ofLex (ofLex key).2).1 = schemaName) = true →
      decide ((ofLex key').1 = databaseName ∧ (ofLex (ofLex key').2).1 = schemaName) = true →
      ofLex (ofLex (ofLex key).2).2 = ofLex (ofLex (ofLex key').2).2 → key = key' := by
    intro key key' hkey hkey' heq
    obtain ⟨hdatabase, hschema⟩ := of_decide_eq_true hkey
    obtain ⟨hdatabase', hschema'⟩ := of_decide_eq_true hkey'
    refine Prod.ext (hdatabase.trans hdatabase'.symm) (Prod.ext (hschema.trans hschema'.symm) ?_)
    exact heq
  obtain ⟨hsorted, hnodup⟩ := sorted_of_probe (m := catalog.entriesByQualifiedSchema) hle hinj
  refine ⟨?_, hsorted, hnodup⟩
  intro entry hentry
  have hmem := (h.qualified_iff databaseName schemaName entry.1 entry.2).mp
    (mem_entriesOfQualifiedSchema.mp hentry)
  obtain ⟨self, loaded, hloaded, hid, hrank, -⟩ := hmem
  exact (h.ranked_iff entry.1 entry.2).mpr ⟨self, loaded, hloaded, hid, hrank⟩

theorem visited_entriesOfSchema (h : Consistent catalog entryIdOf)
    (hsound : SchemaIndexSound catalog) (schemaName : Name) :
    Visited catalog (catalog.entriesOfSchema schemaName) := by
  have hle : ∀ key key' : SchemaKey, decide ((ofLex key).1 = schemaName) = true →
      decide ((ofLex key').1 = schemaName) = true → key < key' →
      (ofLex (ofLex key).2).1 ≤ (ofLex (ofLex key').2).1 := by
    intro key key' hkey hkey' hlt
    rw [Prod.Lex.lt_iff, of_decide_eq_true hkey, of_decide_eq_true hkey'] at hlt
    rcases hlt with hlt | ⟨-, hlt⟩
    · exact absurd hlt (lt_irrefl _)
    rcases Prod.Lex.lt_iff.mp hlt with hlt | ⟨heq, -⟩
    · exact hlt.le
    · exact heq.le
  have hinj : ∀ key key' : SchemaKey, decide ((ofLex key).1 = schemaName) = true →
      decide ((ofLex key').1 = schemaName) = true →
      ofLex (ofLex key).2 = ofLex (ofLex key').2 → key = key' := by
    intro key key' hkey hkey' heq
    exact Prod.ext ((of_decide_eq_true hkey).trans (of_decide_eq_true hkey').symm) heq
  obtain ⟨hsorted, hnodup⟩ := sorted_of_probe (m := catalog.entriesBySchema) hle hinj
  refine ⟨?_, hsorted, hnodup⟩
  intro entry hentry
  obtain ⟨self, loaded, hloaded, hid, hrank, -⟩ :=
    hsound schemaName entry.1 entry.2 (mem_entriesOfSchema.mp hentry)
  exact (h.ranked_iff entry.1 entry.2).mpr ⟨self, loaded, hloaded, hid, hrank⟩

theorem visited_rankedEntries (catalog : Catalog) : Visited catalog catalog.rankedEntries := by
  have hsorted := keys_sorted catalog.entriesRanked
  refine ⟨fun entry hentry => mem_rankedEntries.mp hentry, ?_, ?_⟩
  · refine pairwise_map.mpr (hsorted.imp ?_)
    intro entry other hlt
    rcases Prod.Lex.lt_iff.mp hlt with hlt | ⟨heq, -⟩
    · exact hlt.le
    · exact heq.le
  · exact pairwise_map.mpr (hsorted.imp fun hlt heq => hlt.ne heq)

end Visited

/-! ## Runs -/

/-- What holds of the indexes in every state of every run. -/
structure LookupsReady (catalog : Catalog) : Prop where
  consistent : ∃ entryIdOf, Consistent catalog entryIdOf
  schemaIndex : SchemaIndexSound catalog

namespace World

theorem schemaIndexSound_step {world : World} (event : Event)
    (h : Consistent world.catalog world.entryIdOf) (hsound : SchemaIndexSound world.catalog) :
    SchemaIndexSound (world.step event).catalog := by
  have htransition := transition_step world event
  generalize (world.step event).catalog = after at htransition ⊢
  cases htransition with
  | analyzed self refs databaseId schemaId => exact hsound
  | analyzedElsewhere self analyzed => exact hsound
  | unchanged self rank => exact hsound
  | conflict self rank analyzed hfirst hconflict => exact hsound
  | updated self rank entry analyzed hentry hanalyzed hchanged =>
    exact hsound.updateScript h hentry (entryId_of_analyzed hanalyzed) hchanged
  | loaded self rank analyzed hfirst hdatabases hschemas =>
    exact SchemaIndexSound.registerEntry hsound (h.declare analyzed) hfirst.not_loaded
      hfirst.entry_free (entryId_of_analyzed hfirst.analyzed_eq)
  | dropped self => exact hsound.dropScript h rfl
  | cleared => simp [SchemaIndexSound, Catalog.clear]

theorem lookupsReady_of_run (address : ℕ) (catalogOf : ScriptAddress → ℕ)
    (entryIdOf : ScriptAddress → CatalogEntryId) (events : List Event) :
    LookupsReady ((initial address catalogOf entryIdOf).run events).catalog := by
  have hrun : ∀ (events : List Event) (world : World),
      Consistent world.catalog world.entryIdOf → SchemaIndexSound world.catalog →
      Consistent (world.run events).catalog (world.run events).entryIdOf ∧
        SchemaIndexSound (world.run events).catalog := by
    intro events
    induction events with
    | nil => exact fun world h hsound => ⟨h, hsound⟩
    | cons event rest ih =>
      exact fun world h hsound =>
        ih (world.step event) (consistent_step event h) (schemaIndexSound_step event h hsound)
  obtain ⟨hconsistent, hsound⟩ := hrun events _ (consistent_initial address catalogOf entryIdOf)
    (by simp [initial, Catalog.empty, SchemaIndexSound])
  exact ⟨⟨_, hconsistent⟩, hsound⟩

/-- In every run `entries_by_schema` has no key too many. -/
theorem schemaIndexSound_of_run (address : ℕ) (catalogOf : ScriptAddress → ℕ)
    (entryIdOf : ScriptAddress → CatalogEntryId) (events : List Event) :
    SchemaIndexSound ((initial address catalogOf entryIdOf).run events).catalog :=
  (lookupsReady_of_run address catalogOf entryIdOf events).schemaIndex

end World

end DashQL.Catalog
