import DashQL.Catalog.FlatCatalog
import DashQL.Catalog.FlatLevels
import DashQL.Catalog.Naming

/-!
# Flattening gives a well-formed forest

A database or a schema is found by its id, so the loaded entries have to agree on the
ids.  That is not enough: the database of a schema is looked up with the id that the
id of the schema starts with, and a catalog that forgets a database but not its
schemas gives out schema ids that start with an id of the past.  Then `Flatten`
throws.  `flatten_wellFormed_iff` says that nothing else goes wrong.
-/

namespace DashQL.Catalog

open List Option
open OrderedMap (keys_sorted mem_toList_iff mem_values_iff)

open Levels

open FlattenNodes (databasesOf schemasOf)

/-- Every loaded schema id starts with the database id that its entry has for the database. -/
def SchemaIdsMatch (catalog : Catalog) : Prop :=
  ∀ (self : ScriptAddress) (entry : ScriptEntry), catalog.scriptEntries[self]? = some entry →
    ∀ ref ∈ entry.analyzed.schemaReferences, ∀ database ∈ entry.analyzed.databasesByName,
      database.databaseName = ref.databaseName →
        ref.objectId.unpackDatabaseId = database.objectId.unpackDatabaseId

/-! ## The entry of the lowest rank -/

section Effective

variable {tables : ∀ analyzed : AnalyzedScript, EntryTables analyzed} {catalog : Catalog}

theorem rankedEntries_sorted (catalog : Catalog) :
    catalog.rankedEntries.Pairwise fun entry other => toLex entry < toLex other :=
  pairwise_map.mpr (keys_sorted catalog.entriesRanked)

theorem effective_of_find? {name : QualifiedTableName} {table : TableDeclaration}
    (h : (declaredTables tables catalog).find? (fun other => other.tableName = name) = some table) :
    Effective tables catalog table := by
  have hname : table.tableName = name := by simpa using find?_some h
  unfold declaredTables at h
  rw [find?_flatMap, findSome?_eq_some_iff] at h
  obtain ⟨front, entry, back, hsplit, hfound, hfront⟩ := h
  have hentry : entry ∈ catalog.rankedEntries := by rw [hsplit]; simp
  obtain ⟨analyzed, hanalyzed, -⟩ := mem_foundAt.mp (mem_of_find?_eq_some hfound)
  have hhere : foundAt catalog (fun analyzed => (tables analyzed).tableDeclarations) entry =
      (tables analyzed).tableDeclarations := by simp [foundAt, hanalyzed]
  rw [hhere] at hfound
  refine ⟨entry.1, entry.2, analyzed, mem_rankedEntries.mp hentry, hanalyzed, ?_, ?_⟩
  · rw [hname]
    exact hfound
  · intro rank' entryId' analyzed' hrank' hanalyzed' hother
    obtain ⟨other, hother, hothername⟩ := hother
    have hmem : (rank', entryId') ∈ catalog.rankedEntries := mem_rankedEntries.mpr hrank'
    rw [hsplit, mem_append, mem_cons] at hmem
    have hsorted := rankedEntries_sorted catalog
    rw [hsplit] at hsorted
    rcases hmem with hmem | heq | hmem
    · -- an entry in front has no table of the name
      have hnone := hfront _ hmem
      have hthere : foundAt catalog (fun analyzed => (tables analyzed).tableDeclarations)
          (rank', entryId') = (tables analyzed').tableDeclarations := by simp [foundAt, hanalyzed']
      rw [hthere, find?_eq_none] at hnone
      exact absurd (decide_eq_true (hothername.trans hname)) (hnone other hother)
    · rw [← heq]
    · exact ((pairwise_cons.mp (pairwise_append.mp hsorted).2.1).1 _ hmem).le

end Effective

/-! ## The loaded references -/

section Loaded

variable {tables : ∀ analyzed : AnalyzedScript, EntryTables analyzed} {catalog : Catalog}
  {entryIdOf : ScriptAddress → CatalogEntryId} {order : List AnalyzedScript}

theorem Consistent.mem_order_iff (h : Consistent catalog entryIdOf)
    (horder : order.Perm (catalog.entries.toList.map Prod.snd)) {analyzed : AnalyzedScript} :
    analyzed ∈ order ↔ ∃ (self : ScriptAddress) (entry : ScriptEntry),
      catalog.scriptEntries[self]? = some entry ∧ entry.analyzed = analyzed := by
  rw [horder.mem_iff, mem_values_iff]
  constructor
  · rintro ⟨entryId, hentry⟩
    obtain ⟨self, entry, hloaded, -, hanalyzed⟩ := (h.entries_iff entryId analyzed).mp hentry
    exact ⟨self, entry, hloaded, hanalyzed⟩
  · rintro ⟨self, entry, hloaded, rfl⟩
    exact ⟨_, (h.entries_iff _ _).mpr ⟨self, entry, hloaded, rfl, rfl⟩⟩

/-- An id stands for one name in a run, so entries that agree on the ids agree on all. -/
theorem agreed_of_namedBy {world : World} {naming : Naming} (hnamed : world.NamedBy naming)
    (h : Consistent world.catalog entryIdOf) (hsame : SameIds world.catalog)
    (horder : order.Perm (world.catalog.entries.toList.map Prod.snd)) :
    Agreed (databasesOf order) (schemasOf order) := by
  have hdatabase : ∀ ref ∈ databasesOf order, naming.IsDatabase ref.objectId ref.databaseName := by
    rintro ref ⟨analyzed, hanalyzed, href⟩
    obtain ⟨self, entry, hentry, rfl⟩ := (h.mem_order_iff horder).mp hanalyzed
    exact (hnamed.entries self entry hentry).database ref href
  have hschema : ∀ ref ∈ schemasOf order,
      naming.IsSchema ref.objectId ref.databaseName ref.schemaName := by
    rintro ref ⟨analyzed, hanalyzed, href⟩
    obtain ⟨self, entry, hentry, rfl⟩ := (h.mem_order_iff horder).mp hanalyzed
    exact (hnamed.entries self entry hentry).schema ref href
  refine ⟨fun ref href ref' href' => ⟨fun hname => ?_, fun hid => ?_⟩,
    fun ref href ref' href' => ⟨fun hkey => ?_, fun hid => ?_⟩, fun ref href ref' href' hid => ?_,
    fun ref href database hmem hid => ?_⟩
  · obtain ⟨analyzed, hanalyzed, hmem⟩ := href
    obtain ⟨analyzed', hanalyzed', hmem'⟩ := href'
    obtain ⟨self, entry, hentry, rfl⟩ := (h.mem_order_iff horder).mp hanalyzed
    obtain ⟨self', entry', hentry', rfl⟩ := (h.mem_order_iff horder).mp hanalyzed'
    exact hsame.database self self' entry entry' hentry hentry' ref hmem ref' hmem' hname
  · have hother := hdatabase ref' href'
    rw [← hid] at hother
    exact (hdatabase ref href).unique hother
  · obtain ⟨analyzed, hanalyzed, hmem⟩ := href
    obtain ⟨analyzed', hanalyzed', hmem'⟩ := href'
    obtain ⟨self, entry, hentry, rfl⟩ := (h.mem_order_iff horder).mp hanalyzed
    obtain ⟨self', entry', hentry', rfl⟩ := (h.mem_order_iff horder).mp hanalyzed'
    exact hsame.schema self self' entry entry' hentry hentry' ref hmem ref' hmem' hkey
  · have hother := hschema ref' href'
    rw [← hid] at hother
    exact qualifiedSchema_inj.mpr ((hschema ref href).unique hother)
  · have hother := (hschema ref' href').isDatabase
    have hid : QualifiedCatalogObjectId.database ref.objectId.unpackDatabaseId =
        .database ref'.objectId.unpackDatabaseId := hid
    rw [← hid] at hother
    exact (hschema ref href).isDatabase.unique hother
  · have hparent := (hschema ref href).isDatabase
    have hid : QualifiedCatalogObjectId.database ref.objectId.unpackDatabaseId =
        database.objectId := hid
    rw [hid] at hparent
    exact hparent.unique (hdatabase database hmem)

theorem exists_registerEntries_iff {world : World} {naming : Naming}
    (hnamed : world.NamedBy naming) (h : Consistent world.catalog entryIdOf)
    (hsame : SameIds world.catalog)
    (horder : order.Perm (world.catalog.entries.toList.map Prod.snd)) :
    (∃ nodes, order.foldlM FlattenNodes.registerEntry FlattenNodes.empty = some nodes) ↔
      SchemaIdsMatch world.catalog := by
  have hagreed := agreed_of_namedBy hnamed h hsame horder
  constructor
  · rintro ⟨nodes, hnodes⟩ self entry hentry ref href database hdatabase hname
    have hreferences := FlattenNodes.HasReferences.registerEntries hagreed order
      FlattenNodes.hasReferences_empty (by simp) (by simp) hnodes
    rw [Set.empty_union, Set.empty_union] at hreferences
    have horderEntry := (h.mem_order_iff horder).mpr ⟨self, entry, hentry, rfl⟩
    have hrefMem : ref ∈ schemasOf order := ⟨entry.analyzed, horderEntry, href⟩
    have hdatabaseMem : database ∈ databasesOf order := ⟨entry.analyzed, horderEntry, hdatabase⟩
    obtain ⟨parent, hparent, hid⟩ := (hreferences.database _).mp (hreferences.parent ref hrefMem)
    have hparentName := hagreed.parent ref hrefMem parent hparent hid.symm
    have hsameId := (hagreed.database database hdatabaseMem parent hparent).mp
      (hname.trans hparentName)
    rw [hsameId, hid]
    rfl
  · intro hmatch
    refine FlattenNodes.exists_registerEntries hagreed order FlattenNodes.hasReferences_empty
      (by simp) (by simp) fun analyzed hanalyzed ref href => ?_
    obtain ⟨self, entry, hentry, rfl⟩ := (h.mem_order_iff horder).mp hanalyzed
    have hkey := OrderedMap.mem_of_getElem? (mem_schemaReferences.mp href)
    obtain ⟨database, hdatabase, hname⟩ :=
      List.mem_map.mp (entry.analyzed.database_of_schema _ _ hkey)
    refine ⟨database, hdatabase, ?_⟩
    obtain ⟨id, -, hid, -⟩ := (hnamed.entries self entry hentry).database database hdatabase
    have hmatched := hmatch self entry hentry ref href database hdatabase hname
    rw [SchemaReference.parentId, hmatched, hid]
    rfl

/-- Once the references are registered, the tables come without fail. -/
theorem exists_flattenNodes (h : Consistent catalog entryIdOf)
    (horder : order.Perm (catalog.entries.toList.map Prod.snd))
    (hagreed : Agreed (databasesOf order) (schemasOf order)) {nodes : FlattenNodes}
    (hnodes : order.foldlM FlattenNodes.registerEntry FlattenNodes.empty = some nodes) :
    ∃ after, catalog.flattenNodes tables order = some after ∧
      after.HasReferences (databasesOf order) (schemasOf order) ∧
      after.HasTables (declaredTables tables catalog) := by
  have hreferences := FlattenNodes.HasReferences.registerEntries hagreed order
    FlattenNodes.hasReferences_empty (by simp) (by simp) hnodes
  rw [Set.empty_union, Set.empty_union] at hreferences
  have hempty : FlattenNodes.NoTables FlattenNodes.empty :=
    ⟨by simp [FlattenNodes.empty], rfl, rfl, rfl⟩
  have hloaded : ∀ entry ∈ catalog.rankedEntries, ∃ analyzed,
      catalog.entries[entry.2]? = some analyzed ∧
        ∀ ref ∈ analyzed.schemaReferences, ref ∈ schemasOf order := by
    intro entry hentry
    obtain ⟨analyzed, hanalyzed⟩ := h.exists_entry (mem_rankedEntries.mp hentry)
    have hmem := horder.mem_iff.mpr (mem_values_iff.mpr ⟨entry.2, hanalyzed⟩)
    exact ⟨analyzed, hanalyzed, fun ref href => ⟨analyzed, hmem, href⟩⟩
  obtain ⟨after, hafter, htables, hafterReferences⟩ := exists_foldlM_addEntryTables
    catalog.rankedEntries hloaded (FlattenNodes.NoTables.registerEntries order hempty hnodes).hasTables
    hreferences (declaredTables_distinct h)
  refine ⟨after, ?_, hafterReferences, htables⟩
  rw [flattenNodes, hnodes]
  exact hafter

end Loaded

/-! ## The built forest -/

namespace FlattenNodes

variable {nodes : FlattenNodes} {databases : Set DatabaseReference} {schemas : Set SchemaReference}
  {processed : List TableDeclaration}

theorem HasReferences.root_name (h : HasReferences nodes databases schemas) {name : Name}
    {id : QualifiedCatalogObjectId} {node : DatabaseNode} (hroot : nodes.root[name]? = some id)
    (hnode : nodes.databaseNodes.get? id = some node) :
    nodes.nameDictionary[node.nameId]? = some name := by
  obtain ⟨ref, href, rfl, hid⟩ := (h.root _ _).mp hroot
  exact (h.databaseNode id node hnode).name ref href hid

variable {schemaId : QualifiedCatalogObjectId}

theorem HasReferences.child_name (h : HasReferences nodes databases schemas) {name : Name}
    {id : QualifiedCatalogObjectId} {node : DatabaseNode} {child : SchemaNode}
    (hnode : nodes.databaseNodes.get? id = some node) (hname : node.children[name]? = some schemaId)
    (hchild : nodes.schemaNodes.get? schemaId = some child) :
    nodes.nameDictionary[child.nameId]? = some name := by
  obtain ⟨ref, href, -, rfl, hid⟩ := ((h.databaseNode id node hnode).children _ _).mp hname
  exact (h.schemaNode schemaId child hchild).name ref href hid

theorem HasTables.table_name (h : HasTables nodes processed) {name : Name} {node : SchemaNode}
    {child : TableNode} (hnode : nodes.schemaNodes.get? schemaId = some node)
    (hname : node.children[name]? = some child) :
    nodes.nameDictionary[child.nameId]? = some name := by
  obtain ⟨-, table, hfirst, htable⟩ := h.child schemaId node hnode name child hname
  rw [htable.name, (firstTable_eq_some hfirst).2.2]

/-! ## Siblings -/

theorem pairwise_namesLt {α β : Type} {children : OrderedMap Name α} {found : α → Option β}
    {nameId : β → ℕ} (h : ∀ (name : Name) (child : α) (node : β), children[name]? = some child →
      found child = some node → nodes.nameDictionary[nameId node]? = some name) :
    ((children.toList.map Prod.snd).filterMap found).Pairwise (FlatCatalog.NamesLt nodes.nameDictionary nameId) := by
  rw [filterMap_map, pairwise_filterMap]
  refine (keys_sorted children).imp_of_mem ?_
  intro entry other hentry hother hlt node hnode otherNode hotherNode
  exact ⟨entry.1, other.1, h _ _ node (mem_toList_iff.mp hentry) hnode,
    h _ _ otherNode (mem_toList_iff.mp hother) hotherNode, hlt⟩

theorem HasReferences.rootNodes_sorted (h : HasReferences nodes databases schemas) :
    nodes.rootNodes.Pairwise (FlatCatalog.NamesLt nodes.nameDictionary DatabaseNode.nameId) :=
  pairwise_namesLt fun _ _ _ hroot hnode => h.root_name hroot hnode

theorem HasReferences.childSchemas_sorted (h : HasReferences nodes databases schemas)
    {node : DatabaseNode} (hmem : node ∈ nodes.rootNodes) :
    (nodes.childSchemas node).Pairwise (FlatCatalog.NamesLt nodes.nameDictionary SchemaNode.nameId) := by
  obtain ⟨id, hnode⟩ := h.mem_rootNodes_iff.mp hmem
  exact pairwise_namesLt fun _ _ _ hname hchild => h.child_name hnode hname hchild

theorem HasTables.childTables_sorted (h : HasTables nodes processed) {node : SchemaNode}
    (hnode : nodes.schemaNodes.get? schemaId = some node) :
    (childTables node).Pairwise (FlatCatalog.NamesLt nodes.nameDictionary TableNode.nameId) := by
  have hsorted := @pairwise_namesLt nodes _ _ node.children some TableNode.nameId
    fun name child found hname hfound => by
      obtain rfl := some.inj hfound
      exact h.table_name hnode hname
  rw [filterMap_some] at hsorted
  exact hsorted

/-! ## Where a table node is -/

theorem HasReferences.exists_parents (h : HasReferences nodes databases schemas)
    (hagreed : Agreed databases schemas) {i position : ℕ} {node : TableNode}
    (hlevel : nodes.tableLevel[i]? = some (position, node)) :
    ∃ parent schemaNode databaseNode ref, ∃ name : Name,
      nodes.schemaLevel[position]? = some (parent, schemaNode) ∧
      nodes.rootNodes[parent]? = some databaseNode ∧ ref ∈ schemas ∧
      nodes.nameDictionary[databaseNode.nameId]? = some ref.databaseName ∧
      nodes.nameDictionary[schemaNode.nameId]? = some ref.schemaName ∧
      nodes.schemaNodes.get? ref.objectId = some schemaNode ∧
      schemaNode.children[name]? = some node := by
  obtain ⟨schemaNode, k, hschema, hk, -⟩ := getElem?_childLevel_iff.mp hlevel
  obtain ⟨name, hname⟩ := mem_childTables_iff.mp (List.mem_of_getElem? hk)
  rw [getElem?_map, map_eq_some_iff] at hschema
  obtain ⟨⟨parent, found⟩, hposition, heq⟩ := hschema
  obtain rfl : found = schemaNode := heq
  obtain ⟨databaseNode, k', hdatabase, hk', -⟩ := getElem?_childLevel_iff.mp hposition
  obtain ⟨schemaId, hschemaId, hfound⟩ := mem_filterMap.mp (List.mem_of_getElem? hk')
  obtain ⟨schemaName, hschemaName⟩ := mem_values_iff.mp hschemaId
  obtain ⟨id, hid⟩ := h.mem_rootNodes_iff.mp (List.mem_of_getElem? hdatabase)
  have hdatabaseNode := h.databaseNode id databaseNode hid
  obtain ⟨ref, href, hparent, -, rfl⟩ := (hdatabaseNode.children _ _).mp hschemaName
  obtain ⟨database, hmem, hdatabaseId⟩ := (h.database id).mp (InsertionMap.mem_keys_iff.mpr ⟨_, hid⟩)
  -- the database of the node has the name that the reference has for it
  have hdatabaseName := hagreed.parent ref href database hmem (hparent.trans hdatabaseId.symm)
  refine ⟨parent, found, databaseNode, ref, name, hposition, hdatabase, href, ?_,
    (h.schemaNode _ found hfound).name ref href rfl, hfound, hname⟩
  rw [hdatabaseName]
  exact hdatabaseNode.name database hmem hdatabaseId

end FlattenNodes

/-! ## The flat catalog -/

namespace FlatCatalog

structure HasRows (flat : FlatCatalog) (nodes : FlattenNodes) : Prop where
  nameDictionary : flat.nameDictionary = nodes.nameDictionary
  databases : flat.databases = nodes.databaseRows nodes.databaseLevel
  schemas : flat.schemas = FlattenNodes.schemaRows nodes.schemaLevel
  tables : flat.tables = nodes.tableRows nodes.tableLevel
  columns : flat.columns = FlattenNodes.columnRows nodes.columnLevel
  databasesById : flat.databasesById =
    sortById (indexRowsOf (fun node => node.databaseId.unpackDatabaseId) nodes.databaseLevel)
  schemasById : flat.schemasById =
    sortById (indexRowsOf (fun node => node.schemaId.part1) nodes.schemaLevel)
  tablesById : flat.tablesById =
    sortById (indexRowsOf (fun node => node.tableId.pack) nodes.tableLevel)

variable {flat : FlatCatalog} {nodes : FlattenNodes} {databases : Set DatabaseReference}
  {schemas : Set SchemaReference} {processed : List TableDeclaration}

/-! ### Shape -/

section Shape

theorem HasRows.roots (hrows : flat.HasRows nodes) :
    ∀ entry ∈ flat.databases, entry.flatParentIdx = 0 := by
  intro entry hentry
  rw [hrows.databases] at hentry
  obtain ⟨i, hi⟩ := mem_iff_getElem?.mp hentry
  obtain ⟨parent, node, hnode, rfl⟩ := getElem?_rowsOf_iff.mp hi
  rw [FlattenNodes.databaseLevel, getElem?_map, map_eq_some_iff] at hnode
  obtain ⟨_, -, heq⟩ := hnode
  exact (Prod.mk.inj heq).1.symm

theorem map_snd_databaseLevel (nodes : FlattenNodes) :
    nodes.databaseLevel.map Prod.snd = nodes.rootNodes := by
  simp [FlattenNodes.databaseLevel, Function.comp_def]

/-- The databases are the children of the root. -/
theorem databaseLevel_eq (nodes : FlattenNodes) :
    nodes.databaseLevel = childLevel (fun _ : Unit => nodes.rootNodes) [()] := by
  simp [FlattenNodes.databaseLevel, childLevel]

theorem HasRows.databasesSorted (hrows : flat.HasRows nodes)
    (hreferences : nodes.HasReferences databases schemas) : flat.SiblingsSorted flat.databases := by
  rw [hrows.databases, databaseLevel_eq]
  refine siblingsSorted_rowsOf fun _ _ => ?_
  rw [hrows.nameDictionary]
  exact hreferences.rootNodes_sorted

theorem HasRows.schemasSorted (hrows : flat.HasRows nodes)
    (hreferences : nodes.HasReferences databases schemas) : flat.SiblingsSorted flat.schemas := by
  rw [hrows.schemas]
  refine siblingsSorted_rowsOf fun node hnode => ?_
  rw [hrows.nameDictionary]
  exact hreferences.childSchemas_sorted hnode

theorem HasRows.tablesSorted (hrows : flat.HasRows nodes)
    (hreferences : nodes.HasReferences databases schemas) (htables : nodes.HasTables processed)
    (hagreed : Agreed databases schemas) : flat.SiblingsSorted flat.tables := by
  rw [hrows.tables]
  refine siblingsSorted_rowsOf fun node hnode => ?_
  have hvalue := (FlattenNodes.map_snd_schemaLevel_perm hreferences hagreed).mem_iff.mp hnode
  obtain ⟨schemaId, hschema⟩ := InsertionMap.mem_values_iff.mp hvalue
  rw [hrows.nameDictionary]
  exact htables.childTables_sorted hschema

/-! ### Tables -/

theorem exists_row {α β : Type} {objectId nameId : α → ℕ} {children : α → List β}
    {entries : List FlatCatalogEntry} {level : List (ℕ × α)}
    (h : entries = rowsOf objectId nameId children level) {i parent : ℕ} {node : α}
    (hnode : level[i]? = some (parent, node)) :
    ∃ entry, entries[i]? = some entry ∧ entry.flatParentIdx = parent ∧
      entry.catalogObjectId = objectId node ∧ entry.nameId = nameId node ∧
      entry.childBegin = childCount children ((level.map Prod.snd).take i) ∧
      entry.childCount = (children node).length := by
  rw [h]
  exact ⟨_, getElem?_rowsOf_iff.mpr ⟨parent, node, hnode, rfl⟩, rfl, rfl, rfl, rfl, rfl⟩

theorem HasRows.exists_tablePath (hrows : flat.HasRows nodes)
    (hreferences : nodes.HasReferences databases schemas) (htables : nodes.HasTables processed)
    (hagreed : Agreed databases schemas) {i position : ℕ} {node : TableNode}
    (hlevel : nodes.tableLevel[i]? = some (position, node)) :
    ∃ parent schemaNode ref, ∃ name : Name, ∃ entry : FlatCatalogEntry,
      nodes.schemaLevel[position]? = some (parent, schemaNode) ∧ ref ∈ schemas ∧
      nodes.schemaNodes.get? ref.objectId = some schemaNode ∧
      schemaNode.children[name]? = some node ∧ flat.tables[i]? = some entry ∧
      flat.tablePath entry = some ⟨ref.databaseName, ref.schemaName, name⟩ := by
  obtain ⟨parent, schemaNode, databaseNode, ref, name, hschema, hdatabase, href, hdatabaseName,
    hschemaName, hnode, hname⟩ := hreferences.exists_parents hagreed hlevel
  have hdatabaseLevel : nodes.databaseLevel[parent]? = some (0, databaseNode) := by
    rw [FlattenNodes.databaseLevel, getElem?_map, hdatabase, map_some]
  obtain ⟨entry, hentry, hentryParent, -, hentryName, -⟩ := exists_row hrows.tables hlevel
  obtain ⟨schemaEntry, hschemaEntry, hschemaParent, -, hschemaEntryName, -⟩ :=
    exists_row hrows.schemas hschema
  obtain ⟨databaseEntry, hdatabaseEntry, -, -, hdatabaseEntryName, -⟩ :=
    exists_row hrows.databases hdatabaseLevel
  refine ⟨parent, schemaNode, ref, name, entry, hschema, href, hnode, hname, hentry,
    tablePath_eq_some_iff.mpr ⟨schemaEntry, databaseEntry, ?_, ?_, ?_, ?_, ?_⟩⟩
  · rw [hentryParent, hschemaEntry]
  · rw [hschemaParent, hdatabaseEntry]
  · rw [nameOf, hrows.nameDictionary, hdatabaseEntryName, hdatabaseName]
  · rw [nameOf, hrows.nameDictionary, hschemaEntryName, hschemaName]
  · rw [nameOf, hrows.nameDictionary, hentryName, htables.table_name hnode hname]

theorem HasRows.map_columnsOf (hrows : flat.HasRows nodes) {i position : ℕ} {node : TableNode}
    {entry : FlatCatalogEntry} (hlevel : nodes.tableLevel[i]? = some (position, node))
    (hentry : flat.tables[i]? = some entry) {α : Type} {f : FlatCatalogEntry → α}
    {g : ColumnNode × ℕ → α} (hf : ∀ (row : FlatCatalogEntry) (column : ColumnNode × ℕ),
      row.nameId = column.1.nameId → row.catalogObjectId = column.2 → f row = g column) :
    (flat.columnsOf entry).map f = (nodes.childColumns node).map g := by
  obtain ⟨row, hrow, -, -, -, hbegin, hcount⟩ := exists_row hrows.tables hlevel
  obtain rfl := some.inj (hrow.symm.trans hentry)
  have hmap : flat.columns.map f =
      ((nodes.tableLevel.map Prod.snd).flatMap nodes.childColumns).map g := by
    rw [hrows.columns, ← map_snd_childLevel, ← FlattenNodes.columnLevel, FlattenNodes.columnRows,
      rowsOf, List.map_map, List.map_map]
    conv_rhs => rw [← zipIdx_map_fst 0 nodes.columnLevel, List.map_map]
    exact map_congr_left fun column _ => hf _ _ rfl rfl
  have hnode : (nodes.tableLevel.map Prod.snd)[i]? = some node := by
    rw [getElem?_map, hlevel, map_some]
  rw [columnsOf, map_take, map_drop, hmap, hbegin, hcount, ← map_drop,
    ← map_take, take_drop_flatMap hnode]

end Shape

/-! ### Declared tables -/

section Declared

variable {tables : ∀ analyzed : AnalyzedScript, EntryTables analyzed} {catalog : Catalog}
  {entryIdOf : ScriptAddress → CatalogEntryId} {order : List AnalyzedScript}

theorem catalogSchemaId_eq_iff
    (horder : order.Perm (catalog.entries.toList.map Prod.snd))
    (hagreed : Agreed (databasesOf order) (schemasOf order)) {table : TableDeclaration}
    (htable : table ∈ declaredTables tables catalog) {ref : SchemaReference}
    (href : ref ∈ schemasOf order) :
    table.catalogSchemaId = ref.objectId ↔
      table.tableName.databaseName = ref.databaseName ∧
        table.tableName.schemaName = ref.schemaName := by
  obtain ⟨entry, -, hfound⟩ := mem_flatMap.mp htable
  obtain ⟨analyzed, hentry, hmem⟩ := mem_foundAt.mp hfound
  obtain ⟨found, hlookup, hid⟩ := (tables analyzed).table_schema table hmem
  have hkey : qualifiedSchema table.tableName.databaseName table.tableName.schemaName = found.key :=
    analyzed.schemas_keyed _ found hlookup
  have hanalyzed : analyzed ∈ order :=
    horder.mem_iff.mpr (mem_values_iff.mpr ⟨entry.2, hentry⟩)
  have hfoundMem : found ∈ schemasOf order := by
    rw [hkey] at hlookup
    exact ⟨analyzed, hanalyzed, mem_schemaReferences.mpr hlookup⟩
  rw [← hid, ← hagreed.schema found hfoundMem ref href, ← hkey]
  exact qualifiedSchema_inj

/-- The nodes and the flat catalog of the loaded entries. -/
structure Built (tables : ∀ analyzed : AnalyzedScript, EntryTables analyzed) (catalog : Catalog)
    (order : List AnalyzedScript) (nodes : FlattenNodes) (flat : FlatCatalog) : Prop where
  rows : flat.HasRows nodes
  agreed : Agreed (databasesOf order) (schemasOf order)
  references : nodes.HasReferences (databasesOf order) (schemasOf order)
  tables : nodes.HasTables (declaredTables tables catalog)

section

variable (hbuilt : Built tables catalog order nodes flat)

include hbuilt

theorem Built.exists_effective (horder : order.Perm (catalog.entries.toList.map Prod.snd))
    {i position : ℕ} {node : TableNode} {entry : FlatCatalogEntry}
    (hlevel : nodes.tableLevel[i]? = some (position, node))
    (hentry : flat.tables[i]? = some entry) :
    ∃ table, Effective tables catalog table ∧ flat.Shows entry table := by
  obtain ⟨parent, schemaNode, ref, name, found, -, href, hnode, hname, hfound, hpath⟩ :=
    hbuilt.rows.exists_tablePath hbuilt.references hbuilt.tables hbuilt.agreed hlevel
  obtain rfl := some.inj (hentry.symm.trans hfound)
  obtain ⟨-, table, hfirst, htable⟩ := hbuilt.tables.child _ schemaNode hnode name node hname
  obtain ⟨hmem, hid, hnameOf⟩ := FlattenNodes.firstTable_eq_some hfirst
  have hnames := (catalogSchemaId_eq_iff horder hbuilt.agreed hmem href).mp hid
  have htableName : table.tableName = ⟨ref.databaseName, ref.schemaName, name⟩ := by
    rw [← hnames.1, ← hnames.2, ← hnameOf]
    rfl
  -- the first table of the name in the schema is the first of the qualified name
  have hqualified : (declaredTables tables catalog).find?
      (fun other => other.tableName = table.tableName) = some table := by
    rw [← hfirst]
    refine find?_congr fun other hother => ?_
    have hsame := catalogSchemaId_eq_iff horder hbuilt.agreed hother href
    rw [decide_eq_decide, htableName, hsame]
    constructor
    · intro heq
      rw [heq]
      exact ⟨⟨rfl, rfl⟩, congrArg QualifiedTableName.tableName heq⟩
    · rintro ⟨⟨hdatabase, hschema⟩, hother⟩
      rw [← hdatabase, ← hschema, ← hother]
      rfl
  obtain ⟨row, hrow, -, hrowId, -⟩ := exists_row hbuilt.rows.tables hlevel
  obtain rfl := some.inj (hrow.symm.trans hentry)
  refine ⟨table, effective_of_find? hqualified, ?_, ?_, ?_, ?_⟩
  · rw [hrowId, htable.tableId]
  · rw [hpath, htableName]
  · have hcolumns := hbuilt.rows.map_columnsOf hlevel hentry
      (fun row column hname _ => congrArg (nodes.nameDictionary[·]?) hname)
    have hnameOf : flat.nameOf = fun row => nodes.nameDictionary[row.nameId]? := by
      funext row
      rw [nameOf, hbuilt.rows.nameDictionary]
    rw [hnameOf, hcolumns, ← htable.columns, FlattenNodes.columnNames, FlattenNodes.childColumns_eq]
    conv_rhs => rw [← zipIdx_map_fst 0 (FlattenNodes.columnsOf _ _), List.map_map]
    rfl
  · have hcolumns := hbuilt.rows.map_columnsOf hlevel hentry
      (g := Prod.snd) (fun row column _ hid => hid)
    rw [hcolumns, FlattenNodes.childColumns_eq, zipIdx_map_snd, htable.length_columnsOf,
      htable.count, range_eq_range']

theorem Built.exists_entry (horder : order.Perm (catalog.entries.toList.map Prod.snd))
    {table : TableDeclaration} (htable : table ∈ declaredTables tables catalog) :
    ∃ (i : ℕ) (entry : FlatCatalogEntry), flat.tables[i]? = some entry ∧
      flat.tablePath entry = some table.tableName := by
  obtain ⟨ranked, -, hfound⟩ := mem_flatMap.mp htable
  obtain ⟨analyzed, hentry, hmem⟩ := mem_foundAt.mp hfound
  obtain ⟨found, hlookup, hid⟩ := (tables analyzed).table_schema table hmem
  have hkey := analyzed.schemas_keyed _ found hlookup
  have hanalyzed : analyzed ∈ order :=
    horder.mem_iff.mpr (mem_values_iff.mpr ⟨ranked.2, hentry⟩)
  have hfoundMem : found ∈ schemasOf order := by
    rw [hkey] at hlookup
    exact ⟨analyzed, hanalyzed, mem_schemaReferences.mpr hlookup⟩
  -- the node of the schema has a node of the name
  obtain ⟨schemaNode, hschema⟩ := InsertionMap.mem_keys_iff.mp
    ((hbuilt.references.schema _).mpr ⟨found, hfoundMem, hid⟩)
  obtain ⟨node, hnode⟩ := OrderedMap.exists_getElem?_of_mem
    (hbuilt.tables.complete _ schemaNode hschema table htable rfl)
  have hmemSchema : schemaNode ∈ nodes.schemaLevel.map Prod.snd :=
    (FlattenNodes.map_snd_schemaLevel_perm hbuilt.references hbuilt.agreed).mem_iff.mpr
      (InsertionMap.mem_values_iff.mpr ⟨_, hschema⟩)
  obtain ⟨position, hposition⟩ := mem_iff_getElem?.mp hmemSchema
  obtain ⟨k, hk⟩ := mem_iff_getElem?.mp (FlattenNodes.mem_childTables_iff.mpr ⟨_, hnode⟩)
  have hlevel := getElem?_childLevel_iff.mpr ⟨schemaNode, k, hposition, hk, rfl⟩
  obtain ⟨parent, schemaNode', ref, name, entry, hschemaLevel, href, hschemaNode, hname, htableEntry,
    hpath⟩ := hbuilt.rows.exists_tablePath hbuilt.references hbuilt.tables hbuilt.agreed hlevel
  rw [getElem?_map, hschemaLevel, map_some] at hposition
  obtain rfl : schemaNode' = schemaNode := some.inj hposition
  have hsameId : table.catalogSchemaId = ref.objectId :=
    (hbuilt.references.schemaNode _ _ hschema).schemaId.symm.trans
      (hbuilt.references.schemaNode _ _ hschemaNode).schemaId
  have hnames := (catalogSchemaId_eq_iff horder hbuilt.agreed htable href).mp hsameId
  have hsameName : table.name = name := some.inj
    ((hbuilt.tables.table_name hschema hnode).symm.trans (hbuilt.tables.table_name hschemaNode hname))
  refine ⟨_, entry, htableEntry, ?_⟩
  rw [hpath, ← hnames.1, ← hnames.2, ← hsameName]
  rfl

theorem Built.wellFormed (h : Consistent catalog entryIdOf)
    (horder : order.Perm (catalog.entries.toList.map Prod.snd)) :
    flat.WellFormed tables catalog := by
  have hsnd := map_snd_databaseLevel nodes
  have hdatabasesSorted := hbuilt.rows.databasesSorted hbuilt.references
  have hschemasSorted := hbuilt.rows.schemasSorted hbuilt.references
  have htablesSorted := hbuilt.rows.tablesSorted hbuilt.references hbuilt.tables hbuilt.agreed
  refine
    { databasesNumbered := by rw [hbuilt.rows.databases]; exact numbered_rowsOf
      schemasNumbered := by rw [hbuilt.rows.schemas]; exact numbered_rowsOf
      tablesNumbered := by rw [hbuilt.rows.tables]; exact numbered_rowsOf
      columnsNumbered := by rw [hbuilt.rows.columns]; exact numbered_rowsOf
      schemasNested := ?_
      tablesNested := by rw [hbuilt.rows.schemas, hbuilt.rows.tables]; exact nested_rowsOf
      columnsNested := by rw [hbuilt.rows.tables, hbuilt.rows.columns]; exact nested_rowsOf
      databasesSorted := hdatabasesSorted
      schemasSorted := hschemasSorted
      tablesSorted := htablesSorted
      databasesById := by
        rw [hbuilt.rows.databasesById, hbuilt.rows.databases]
        exact isIndex_rowsOf
      schemasById := by
        rw [hbuilt.rows.schemasById, hbuilt.rows.schemas]
        exact isIndex_rowsOf
      tablesById := by
        rw [hbuilt.rows.tablesById, hbuilt.rows.tables]
        exact isIndex_rowsOf
      effective := ?_
      declared := ?_ }
  · rw [hbuilt.rows.databases, hbuilt.rows.schemas, FlattenNodes.schemaLevel, ← hsnd]
    exact nested_rowsOf
  · intro entry hentry
    obtain ⟨i, hi⟩ := mem_iff_getElem?.mp hentry
    have hrow := hi
    rw [hbuilt.rows.tables] at hrow
    obtain ⟨position, node, hlevel, -⟩ := getElem?_rowsOf_iff.mp hrow
    exact hbuilt.exists_effective horder hlevel hi
  · intro entryId analyzed hentry table htable
    obtain ⟨rank, hrank⟩ := (h.exists_rank hentry).2
    have hmem : table ∈ declaredTables tables catalog := by
      refine mem_flatMap.mpr ⟨(rank, entryId), mem_rankedEntries.mpr hrank, ?_⟩
      exact mem_foundAt.mpr ⟨analyzed, hentry, htable⟩
    obtain ⟨i, entry, hi, hpath⟩ := hbuilt.exists_entry horder hmem
    refine ⟨i, ⟨entry, hi, hpath⟩, ?_⟩
    rintro j ⟨other, hj, hother⟩
    exact tablePath_unique hdatabasesSorted hbuilt.rows.roots hschemasSorted htablesSorted hj hi
      hother hpath

end

end Declared

end FlatCatalog

/-- In every state of every run whose loaded entries agree on the ids, `Flatten` gives a
well-formed forest exactly if the loaded schema ids match the database ids. -/
theorem flatten_wellFormed_iff (address : ℕ) (catalogOf : ScriptAddress → ℕ)
    (entryIdOf : ScriptAddress → CatalogEntryId) (events : List Event)
    (tables : ∀ analyzed : AnalyzedScript, EntryTables analyzed) (order : List AnalyzedScript)
    (hsame : SameIds ((World.initial address catalogOf entryIdOf).run events).catalog)
    (horder : order.Perm
      (((World.initial address catalogOf entryIdOf).run events).catalog.entries.toList.map
        Prod.snd)) :
    let catalog := ((World.initial address catalogOf entryIdOf).run events).catalog
    (∃ flat, catalog.flatten tables order = some flat ∧ flat.WellFormed tables catalog) ↔
      SchemaIdsMatch catalog := by
  intro catalog
  obtain ⟨⟨entryIdOf', hconsistent⟩, -⟩ :=
    World.lookupsReady_of_run address catalogOf entryIdOf events
  obtain ⟨naming, hnamed⟩ := World.exists_namedBy_of_run address catalogOf entryIdOf events
  have hagreed := agreed_of_namedBy hnamed hconsistent hsame horder
  rw [← exists_registerEntries_iff hnamed hconsistent hsame horder]
  constructor
  · rintro ⟨flat, hflat, -⟩
    obtain ⟨nodes, hnodes, -⟩ := bind_eq_some_iff.mp hflat
    obtain ⟨registered, hregistered, -⟩ := bind_eq_some_iff.mp hnodes
    exact ⟨registered, hregistered⟩
  · rintro ⟨registered, hregistered⟩
    obtain ⟨nodes, hnodes, hreferences, htables⟩ :=
      @exists_flattenNodes tables catalog entryIdOf' order hconsistent horder hagreed registered
        hregistered
    obtain ⟨writer, hwriter, hdatabases, hschemas, htableEntries, hcolumns, hdatabasesById,
      hschemasById, htablesById⟩ := FlattenNodes.writeNodes_eq_rows hreferences htables hagreed
        (declaredTables_distinct hconsistent)
    have hflat : catalog.flatten tables order = some
        { catalogVersion := catalog.version
          nameDictionary := nodes.nameDictionary
          databases := writer.databaseEntries
          schemas := writer.schemaEntries
          tables := writer.tableEntries
          columns := writer.columnEntries
          databasesById := sortById writer.indexedDatabaseEntries
          schemasById := sortById writer.indexedSchemaEntries
          tablesById := sortById writer.indexedTableEntries } := by
      rw [flatten, hnodes, bind_some, hwriter, map_some]
    refine ⟨_, hflat, FlatCatalog.Built.wellFormed ⟨?_, hagreed, hreferences, htables⟩ hconsistent
      horder⟩
    exact ⟨rfl, hdatabases, hschemas, htableEntries, hcolumns, congrArg sortById hdatabasesById,
      congrArg sortById hschemasById, congrArg sortById htablesById⟩

/-- A script that references the schema `s` of the database `d`. -/
theorem flatten_wellFormed_oneSchema :
    let catalog := ((World.initial 0 (fun _ => 0) id).run
      [.analyze 1 [([100], [115])], .load 1 0]).catalog
    (∃ flat, catalog.flatten (tablesNamed [[116]]) (catalog.entries.toList.map Prod.snd) =
        some flat ∧ flat.WellFormed (tablesNamed [[116]]) catalog) ↔ SchemaIdsMatch catalog :=
  flatten_wellFormed_iff 0 (fun _ => 0) id [.analyze 1 [([100], [115])], .load 1 0]
    (tablesNamed [[116]]) _
    (World.consistent_idsAgree_run (by decide +kernel)).2.sameIds (.refl _)

/-! ## A schema id with a database id of the past -/

/-- The database `d` is forgotten when the script 2 stops to reference it, its schema `s` is
not; then the script 3 references both. -/
def forgottenDatabaseRun : Catalog :=
  ((World.initial 0 (fun _ => 0) id).run
    [.analyze 1 [([100], [115])], .load 1 0, .drop 1, .analyze 2 [([100], [120])], .load 2 0,
      .analyze 2 [], .load 2 0, .analyze 3 [([100], [115])], .load 3 0]).catalog

/-- The loaded entries agree on the ids, and `Flatten` throws. -/
theorem flatten_throws_forgottenDatabase :
    SameIds forgottenDatabaseRun ∧
      forgottenDatabaseRun.flatten (tablesNamed [[116]])
        (forgottenDatabaseRun.entries.toList.map Prod.snd) = none := by
  refine ⟨(World.consistent_idsAgree_run (by decide +kernel)).2.sameIds, ?_⟩
  have hnone : (forgottenDatabaseRun.flatten (tablesNamed [[116]])
      (forgottenDatabaseRun.entries.toList.map Prod.snd)).isNone = true := by
    decide +kernel
  exact isNone_iff_eq_none.mp hnone

end DashQL.Catalog
