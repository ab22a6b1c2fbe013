import DashQL.Catalog.FlatTables
import DashQL.Catalog.FlatRows

/-!
# The levels of the built forest

When all references and all tables have come, every reference finds its node, and each
level of the forest has the nodes of one buffer, in another order.  So the arrays,
which are allocated with the sizes of the buffers, are filled exactly
(`writeNodes_eq_rows`).
-/

namespace DashQL.Catalog

open List
open InsertionMap (filterMap_get?_keys get?_eq_some_iff mem_keys_iff)
open OrderedMap (mem_values_iff nodup_values)

open Levels

namespace FlattenNodes

variable {nodes : FlattenNodes} {databases : Set DatabaseReference} {schemas : Set SchemaReference}
  {processed : List TableDeclaration}

theorem childColumns_eq (nodes : FlattenNodes) (node : TableNode) :
    nodes.childColumns node = (columnsOf nodes.columnNodes node).zipIdx := rfl

theorem mem_childTables_iff {node : SchemaNode} {table : TableNode} :
    table ∈ childTables node ↔ ∃ name : Name, node.children[name]? = some table :=
  mem_values_iff

/-! ## References find their nodes -/

theorem HasReferences.resolved (h : HasReferences nodes databases schemas)
    (htables : HasTables nodes processed) : nodes.Resolved where
  root := by
    intro databaseId hmem
    obtain ⟨name, hname⟩ := mem_values_iff.mp hmem
    obtain ⟨ref, href, -, hid⟩ := (h.root name databaseId).mp hname
    exact mem_keys_iff.mp ((h.database databaseId).mpr ⟨ref, href, hid⟩)
  schema := by
    intro databaseId node hnode schemaId hmem
    obtain ⟨name, hname⟩ := mem_values_iff.mp hmem
    obtain ⟨ref, href, -, -, hid⟩ := ((h.databaseNode databaseId node hnode).children _ _).mp hname
    exact mem_keys_iff.mp ((h.schema schemaId).mpr ⟨ref, href, hid⟩)
  columns := by
    intro schemaId node hnode table hmem
    obtain ⟨name, hname⟩ := mem_childTables_iff.mp hmem
    obtain ⟨-, declared, -, hdeclared⟩ := htables.child schemaId node hnode name table hname
    rw [childColumns_eq, length_zipIdx]
    exact hdeclared.length_columnsOf.symm

/-! ## Databases -/

theorem HasReferences.mem_rootNodes_iff (h : HasReferences nodes databases schemas)
    {node : DatabaseNode} :
    node ∈ nodes.rootNodes ↔ ∃ id, nodes.databaseNodes.get? id = some node := by
  unfold rootNodes
  rw [mem_filterMap]
  constructor
  · rintro ⟨id, -, hnode⟩
    exact ⟨id, hnode⟩
  · rintro ⟨id, hnode⟩
    obtain ⟨ref, href, hid⟩ := (h.database id).mp (mem_keys_iff.mpr ⟨node, hnode⟩)
    exact ⟨id, mem_values_iff.mpr ⟨ref.databaseName, (h.root _ _).mpr ⟨ref, href, rfl, hid⟩⟩, hnode⟩

theorem HasReferences.root_perm (h : HasReferences nodes databases schemas)
    (hagreed : Agreed databases schemas) :
    (nodes.root.toList.map Prod.snd).Perm nodes.databaseNodes.keys := by
  have hnodup : (nodes.root.toList.map Prod.snd).Nodup := by
    refine nodup_values fun name name' id hname hname' => ?_
    obtain ⟨ref, href, rfl, hid⟩ := (h.root _ _).mp hname
    obtain ⟨ref', href', rfl, hid'⟩ := (h.root _ _).mp hname'
    exact (hagreed.database ref href ref' href').mpr (hid.trans hid'.symm)
  rw [perm_ext_iff_of_nodup hnodup nodes.databaseNodes.nodup_keys]
  intro id
  rw [mem_values_iff, h.database]
  constructor
  · rintro ⟨name, hname⟩
    obtain ⟨ref, href, -, hid⟩ := (h.root _ _).mp hname
    exact ⟨ref, href, hid⟩
  · rintro ⟨ref, href, hid⟩
    exact ⟨ref.databaseName, (h.root _ _).mpr ⟨ref, href, rfl, hid⟩⟩

theorem HasReferences.rootNodes_perm (h : HasReferences nodes databases schemas)
    (hagreed : Agreed databases schemas) : nodes.rootNodes.Perm nodes.databaseNodes.values := by
  rw [← filterMap_get?_keys]
  exact (h.root_perm hagreed).filterMap _

/-! ## Schemas -/

def childIds (node : DatabaseNode) : List QualifiedCatalogObjectId :=
  node.children.toList.map Prod.snd

theorem HasReferences.mem_childIds_iff (h : HasReferences nodes databases schemas)
    {id schemaId : QualifiedCatalogObjectId} {node : DatabaseNode}
    (hnode : nodes.databaseNodes.get? id = some node) :
    schemaId ∈ childIds node ↔ ∃ ref ∈ schemas, ref.parentId = id ∧ ref.objectId = schemaId := by
  unfold childIds
  rw [mem_values_iff]
  have hchildren := (h.databaseNode id node hnode).children
  constructor
  · rintro ⟨name, hname⟩
    obtain ⟨ref, href, hparent, -, hid⟩ := (hchildren _ _).mp hname
    exact ⟨ref, href, hparent, hid⟩
  · rintro ⟨ref, href, hparent, hid⟩
    exact ⟨ref.schemaName, (hchildren _ _).mpr ⟨ref, href, hparent, rfl, hid⟩⟩

theorem HasReferences.schemaIds_perm (h : HasReferences nodes databases schemas)
    (hagreed : Agreed databases schemas) :
    (nodes.databaseNodes.values.flatMap childIds).Perm nodes.schemaNodes.keys := by
  have hvalues : nodes.databaseNodes.values.flatMap childIds =
      nodes.databaseNodes.entries.flatMap fun entry => childIds entry.2 := by
    rw [InsertionMap.values, flatMap_map]
  have hget : ∀ entry ∈ nodes.databaseNodes.entries,
      nodes.databaseNodes.get? entry.1 = some entry.2 :=
    fun entry hentry => get?_eq_some_iff.mpr hentry
  have hnodup : (nodes.databaseNodes.values.flatMap childIds).Nodup := by
    rw [hvalues, nodup_flatMap]
    constructor
    · intro entry hentry
      refine nodup_values fun name name' id hname hname' => ?_
      have hchildren := (h.databaseNode _ _ (hget entry hentry)).children
      obtain ⟨ref, href, -, rfl, hid⟩ := (hchildren _ _).mp hname
      obtain ⟨ref', href', -, rfl, hid'⟩ := (hchildren _ _).mp hname'
      have hkey := (hagreed.schema ref href ref' href').mpr (hid.trans hid'.symm)
      exact (qualifiedSchema_inj.mp hkey).2
    · refine List.Pairwise.imp_of_mem ?_ (pairwise_map.mp nodes.databaseNodes.nodup)
      intro entry other hentry hother hne id hid hid'
      obtain ⟨ref, -, hparent, hobject⟩ := (h.mem_childIds_iff (hget entry hentry)).mp hid
      obtain ⟨ref', -, hparent', hobject'⟩ := (h.mem_childIds_iff (hget other hother)).mp hid'
      -- a schema id has one database id
      apply hne
      rw [← hparent, ← hparent', SchemaReference.parentId, SchemaReference.parentId, hobject,
        hobject']
  rw [perm_ext_iff_of_nodup hnodup nodes.schemaNodes.nodup_keys]
  intro id
  rw [hvalues, mem_flatMap, h.schema]
  constructor
  · rintro ⟨entry, hentry, hid⟩
    obtain ⟨ref, href, -, hobject⟩ := (h.mem_childIds_iff (hget entry hentry)).mp hid
    exact ⟨ref, href, hobject⟩
  · rintro ⟨ref, href, hid⟩
    obtain ⟨node, hnode⟩ := mem_keys_iff.mp (h.parent ref href)
    exact ⟨(ref.parentId, node), get?_eq_some_iff.mp hnode,
      (h.mem_childIds_iff hnode).mpr ⟨ref, href, rfl, hid⟩⟩

theorem HasReferences.schemaNodes_perm (h : HasReferences nodes databases schemas)
    (hagreed : Agreed databases schemas) :
    (nodes.rootNodes.flatMap nodes.childSchemas).Perm nodes.schemaNodes.values := by
  have hids : nodes.rootNodes.flatMap nodes.childSchemas =
      (nodes.rootNodes.flatMap childIds).filterMap nodes.schemaNodes.get? := by
    rw [filterMap_flatMap]
    rfl
  rw [hids, ← filterMap_get?_keys]
  exact (((h.rootNodes_perm hagreed).flatMap_right childIds).trans
    (h.schemaIds_perm hagreed)).filterMap _

/-! ## Tables -/

/-- A table node is below one schema, under one name. -/
theorem HasTables.tableNodes_perm (h : HasTables nodes processed)
    (hdistinct : processed.Pairwise fun table other => table.objectId ≠ other.objectId) :
    (nodes.schemaNodes.values.flatMap childTables).Perm nodes.tableNodes := by
  have hvalues : nodes.schemaNodes.values.flatMap childTables =
      nodes.schemaNodes.entries.flatMap fun entry => childTables entry.2 := by
    rw [InsertionMap.values, flatMap_map]
  have hget : ∀ entry ∈ nodes.schemaNodes.entries, nodes.schemaNodes.get? entry.1 = some entry.2 :=
    fun entry hentry => get?_eq_some_iff.mpr hentry
  have hnodup : (nodes.schemaNodes.values.flatMap childTables).Nodup := by
    rw [hvalues, nodup_flatMap]
    constructor
    · intro entry hentry
      refine nodup_values fun name name' child hname hname' => ?_
      obtain ⟨-, table, hfirst, htable⟩ := h.child _ _ (hget entry hentry) name child hname
      obtain ⟨-, table', hfirst', htable'⟩ := h.child _ _ (hget entry hentry) name' child hname'
      obtain ⟨-, -, rfl⟩ := firstTable_eq_some hfirst
      obtain ⟨-, -, rfl⟩ := firstTable_eq_some hfirst'
      exact Option.some.inj (htable.name.symm.trans htable'.name)
    · refine List.Pairwise.imp_of_mem ?_ (pairwise_map.mp nodes.schemaNodes.nodup)
      intro entry other hentry hother hne child hchild hchild'
      obtain ⟨name, hname⟩ := mem_childTables_iff.mp hchild
      obtain ⟨name', hname'⟩ := mem_childTables_iff.mp hchild'
      obtain ⟨-, table, hfirst, htable⟩ := h.child _ _ (hget entry hentry) name child hname
      obtain ⟨-, table', hfirst', htable'⟩ := h.child _ _ (hget other hother) name' child hname'
      obtain ⟨hmem, hschema, -⟩ := firstTable_eq_some hfirst
      obtain ⟨hmem', hschema', -⟩ := firstTable_eq_some hfirst'
      have hsame : table = table' := by
        by_contra hdifferent
        have hsymm : Std.Symm fun table other : TableDeclaration =>
            table.objectId ≠ other.objectId := ⟨fun _ _ h => h.symm⟩
        exact hdistinct.forall hmem hmem' hdifferent (htable.tableId.symm.trans htable'.tableId)
      rw [hsame] at hschema
      exact hne (hschema.symm.trans hschema')
  have hnodes : nodes.tableNodes.Nodup := h.distinct.imp fun hne heq => hne (congrArg _ heq)
  rw [perm_ext_iff_of_nodup hnodup hnodes]
  intro child
  rw [hvalues, mem_flatMap]
  constructor
  · rintro ⟨entry, hentry, hchild⟩
    obtain ⟨name, hname⟩ := mem_childTables_iff.mp hchild
    exact (h.child _ _ (hget entry hentry) name child hname).1
  · intro hchild
    obtain ⟨id, node, name, hnode, hname⟩ := h.taken child hchild
    exact ⟨(id, node), get?_eq_some_iff.mp hnode, mem_childTables_iff.mpr ⟨name, hname⟩⟩

/-! ## Sizes -/

section Sizes

variable (hreferences : HasReferences nodes databases schemas)
  (htables : HasTables nodes processed) (hagreed : Agreed databases schemas)
  (hdistinct : processed.Pairwise fun table other => table.objectId ≠ other.objectId)

include hreferences hagreed

theorem length_databaseLevel : nodes.databaseLevel.length = nodes.databaseNodes.keys.length := by
  rw [databaseLevel, length_map, (hreferences.rootNodes_perm hagreed).length_eq,
    InsertionMap.values, InsertionMap.keys, length_map, length_map]

theorem map_snd_schemaLevel_perm :
    (nodes.schemaLevel.map Prod.snd).Perm nodes.schemaNodes.values := by
  rw [schemaLevel, map_snd_childLevel]
  exact hreferences.schemaNodes_perm hagreed

theorem length_schemaLevel : nodes.schemaLevel.length = nodes.schemaNodes.keys.length := by
  have hlength := (map_snd_schemaLevel_perm hreferences hagreed).length_eq
  rw [length_map] at hlength
  rw [hlength, InsertionMap.values, InsertionMap.keys, length_map, length_map]

include htables hdistinct

theorem map_snd_tableLevel_perm : (nodes.tableLevel.map Prod.snd).Perm nodes.tableNodes := by
  rw [tableLevel, map_snd_childLevel]
  exact ((map_snd_schemaLevel_perm hreferences hagreed).flatMap_right childTables).trans
    (htables.tableNodes_perm hdistinct)

theorem length_tableLevel : nodes.tableLevel.length = nodes.effectiveTableCount := by
  have hlength := (map_snd_tableLevel_perm hreferences htables hagreed hdistinct).length_eq
  rw [length_map] at hlength
  rw [hlength, htables.count]

theorem length_columnLevel : nodes.columnLevel.length = nodes.columnNodes.length := by
  have hperm := (map_snd_tableLevel_perm hreferences htables hagreed hdistinct).map
    fun node => (nodes.childColumns node).length
  have hcolumns := congrArg List.length htables.columns
  rw [length_flatMap] at hcolumns
  rw [columnLevel, length_childLevel, childCount, hperm.sum_eq, ← hcolumns]
  simp only [childColumns_eq, length_zipIdx]

theorem writeNodes_eq_rows :
    ∃ writer, FlatWriter.writeNodes nodes = some writer ∧
      writer.databaseEntries = nodes.databaseRows nodes.databaseLevel ∧
      writer.schemaEntries = schemaRows nodes.schemaLevel ∧
      writer.tableEntries = nodes.tableRows nodes.tableLevel ∧
      writer.columnEntries = columnRows nodes.columnLevel ∧
      writer.indexedDatabaseEntries =
        indexRowsOf (fun node => node.databaseId.unpackDatabaseId) nodes.databaseLevel ∧
      writer.indexedSchemaEntries =
        indexRowsOf (fun node => node.schemaId.part1) nodes.schemaLevel ∧
      writer.indexedTableEntries =
        indexRowsOf (fun node => node.tableId.pack) nodes.tableLevel := by
  have hdatabase : nodes.databaseLevel.map Prod.snd = nodes.rootNodes := by
    simp [databaseLevel, Function.comp_def]
  have hlevels : FlatWriter.atDatabase nodes nodes.databaseLevel =
      FlatWriter.written nodes nodes.databaseLevel nodes.schemaLevel nodes.tableLevel
        nodes.columnLevel nodes.databaseLevel.length nodes.schemaLevel.length
        nodes.tableLevel.length := by
    unfold FlatWriter.atDatabase FlatWriter.atSchema FlatWriter.atTable
    rw [hdatabase]
    rfl
  refine ⟨_, FlatWriter.writeNodes_eq (hreferences.resolved htables), ?_⟩
  rw [hlevels]
  refine ⟨fill_of_length_eq ?_, fill_of_length_eq ?_, fill_of_length_eq ?_, fill_of_length_eq ?_,
    fill_of_length_eq ?_, fill_of_length_eq ?_, fill_of_length_eq ?_⟩
  · exact (length_rowsOf _ _ _ _).trans (length_databaseLevel hreferences hagreed)
  · exact (length_rowsOf _ _ _ _).trans (length_schemaLevel hreferences hagreed)
  · exact (length_rowsOf _ _ _ _).trans (length_tableLevel hreferences htables hagreed hdistinct)
  · exact (length_rowsOf _ _ _ _).trans (length_columnLevel hreferences htables hagreed hdistinct)
  · exact (length_indexRowsOf _ _).trans (length_databaseLevel hreferences hagreed)
  · exact (length_indexRowsOf _ _).trans (length_schemaLevel hreferences hagreed)
  · exact (length_indexRowsOf _ _).trans (length_tableLevel hreferences htables hagreed hdistinct)

end Sizes

end FlattenNodes

end DashQL.Catalog
