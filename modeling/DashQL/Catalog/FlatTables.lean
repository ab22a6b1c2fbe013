import DashQL.Catalog.FlatReferences
import DashQL.Catalog.ResolveTable

/-!
# The table nodes

Tables come by rank, and a schema takes the first one of each name.  `HasTables` is
what the nodes are when certain tables have come: the tables of a schema node are the
first of their names among them, and the nodes of the tables and of the columns are
those that were taken, in the order in which they came.
-/

namespace DashQL.Catalog

open List Option
open InsertionMap (get?_set get?_set_of_ne get?_set_self mem_keys_iff)

namespace FlattenNodes

/-! ## Names and columns -/

theorem prefix_addName (dictionary : List Name) (name : Name) :
    dictionary <+: (addName dictionary name).2 := by
  unfold addName
  split_ifs
  · exact List.prefix_rfl
  · exact List.prefix_append _ _

/-- The names that a dictionary has keep their ids when it grows. -/
theorem getElem?_mono {dictionary later : List Name} (h : dictionary <+: later) {id : ℕ}
    {name : Name} (hname : dictionary[id]? = some name) : later[id]? = some name := by
  obtain ⟨added, rfl⟩ := h
  rw [getElem?_append_left (List.getElem?_eq_some_iff.mp hname).1, hname]

def columnNames (dictionary : List Name) (columns : List ColumnNode) : List (Option Name) :=
  columns.map fun column => dictionary[column.nameId]?

theorem columnNames_mono {dictionary later : List Name} (h : dictionary <+: later)
    {columns : List ColumnNode} {names : List Name}
    (hnames : columnNames dictionary columns = names.map some) :
    columnNames later columns = names.map some := by
  rw [← hnames]
  refine map_congr_left fun column hcolumn => ?_
  have hmem : dictionary[column.nameId]? ∈ names.map some := by
    rw [← hnames]
    exact mem_map_of_mem hcolumn
  obtain ⟨name, -, hname⟩ := mem_map.mp hmem
  rw [← hname]
  exact getElem?_mono h hname.symm

/-- The loop over the columns adds a node for each of them. -/
theorem foldl_addColumn (names : List Name) : ∀ (first : ℕ) (nodes : FlattenNodes),
    ∃ added dictionary, nodes.nameDictionary <+: dictionary ∧
      columnNames dictionary added = names.map some ∧
      (names.zipIdx first).foldl addColumn nodes =
        { nodes with
          nameDictionary := dictionary
          columnNodes := nodes.columnNodes ++ added } := by
  induction names with
  | nil =>
    intro first nodes
    exact ⟨[], nodes.nameDictionary, List.prefix_rfl, rfl, by simp⟩
  | cons name rest ih =>
    intro first nodes
    obtain ⟨added, dictionary, hprefix, hnames, hfold⟩ :=
      ih (first + 1) (addColumn nodes (name, first))
    refine ⟨⟨first, (addName nodes.nameDictionary name).1⟩ :: added, dictionary,
      (prefix_addName _ name).trans hprefix, ?_, ?_⟩
    · have hname := getElem?_mono hprefix (getElem?_addName nodes.nameDictionary name)
      rw [columnNames, map_cons, map_cons, hname]
      exact congrArg _ hnames
    · rw [zipIdx_cons, foldl_cons, hfold]
      simp [addColumn]

/-! ## One table -/

theorem addTable_cases {nodes after : FlattenNodes} {table : TableDeclaration}
    (hafter : nodes.addTable table = some after) :
    ∃ schemaNode, nodes.schemaNodes.get? table.catalogSchemaId = some schemaNode ∧
      (table.name ∈ schemaNode.children ∧ after = nodes ∨
        table.name ∉ schemaNode.children ∧ ∃ added dictionary nameId,
          nodes.nameDictionary <+: dictionary ∧
          columnNames dictionary added = table.tableColumns.map some ∧
          dictionary[nameId]? = some table.name ∧
          let tableNode : TableNode :=
            ⟨table.objectId, nameId, nodes.columnNodes.length, table.tableColumns.length⟩
          after =
            { nodes with
              nameDictionary := dictionary
              columnNodes := nodes.columnNodes ++ added
              tableNodes := nodes.tableNodes ++ [tableNode]
              schemaNodes := nodes.schemaNodes.set table.catalogSchemaId
                { schemaNode with
                  children := schemaNode.children.insertIfNew table.name tableNode }
              effectiveTableCount := nodes.effectiveTableCount + 1 }) := by
  unfold addTable at hafter
  split at hafter
  · cases hafter
  next schemaNode hschema =>
  refine ⟨schemaNode, hschema, ?_⟩
  split_ifs at hafter with hmem
  · exact .inl ⟨hmem, (some.inj hafter).symm⟩
  · obtain ⟨added, dictionary, hprefix, hnames, hfold⟩ := foldl_addColumn table.tableColumns 0 nodes
    rw [hfold] at hafter
    refine .inr ⟨hmem, added, _, _, hprefix.trans (prefix_addName _ table.name),
      columnNames_mono (prefix_addName _ _) hnames, getElem?_addName _ _, ?_⟩
    exact (some.inj hafter).symm

theorem exists_addTable {nodes : FlattenNodes} {table : TableDeclaration}
    (h : table.catalogSchemaId ∈ nodes.schemaNodes.keys) :
    ∃ after, nodes.addTable table = some after := by
  obtain ⟨schemaNode, hschema⟩ := mem_keys_iff.mp h
  unfold addTable
  rw [hschema]
  dsimp only
  split_ifs
  · exact ⟨nodes, rfl⟩
  · exact ⟨_, rfl⟩

theorem HasReferences.addTable {nodes after : FlattenNodes} {databases : Set DatabaseReference}
    {schemas : Set SchemaReference} {table : TableDeclaration}
    (h : HasReferences nodes databases schemas) (hafter : nodes.addTable table = some after) :
    HasReferences after databases schemas := by
  obtain ⟨schemaNode, hschema, ⟨-, rfl⟩ | ⟨-, added, dictionary, nameId, hprefix, -, -, rfl⟩⟩ :=
    addTable_cases hafter
  · exact h
  have hkey := mem_keys_iff.mpr ⟨schemaNode, hschema⟩
  refine ⟨h.root, h.database, fun id => ?_, h.parent, fun id node hnode => ?_,
    fun id node hnode => ?_⟩
  · dsimp only
    rw [InsertionMap.keys_set_of_mem hkey]
    exact h.schema id
  · have hold := h.databaseNode id node hnode
    exact ⟨hold.databaseId, fun ref href hid => getElem?_mono hprefix (hold.name ref href hid),
      hold.children⟩
  · dsimp only at hnode
    by_cases hid : id = table.catalogSchemaId
    · subst hid
      rw [get?_set_self] at hnode
      obtain rfl := some.inj hnode
      have hold := h.schemaNode _ schemaNode hschema
      exact ⟨hold.schemaId, fun ref href hid => getElem?_mono hprefix (hold.name ref href hid)⟩
    · rw [get?_set_of_ne hid] at hnode
      have hold := h.schemaNode id node hnode
      exact ⟨hold.schemaId, fun ref href hid => getElem?_mono hprefix (hold.name ref href hid)⟩

/-! ## The tables that are taken -/

def columnsOf (columnNodes : List ColumnNode) (node : TableNode) : List ColumnNode :=
  (columnNodes.drop node.childrenBegin).take node.childCount

structure IsTableNode (nodes : FlattenNodes) (table : TableDeclaration) (node : TableNode) : Prop
    where
  tableId : node.tableId = table.objectId
  name : nodes.nameDictionary[node.nameId]? = some table.name
  count : node.childCount = table.tableColumns.length
  columns : columnNames nodes.nameDictionary (columnsOf nodes.columnNodes node) =
    table.tableColumns.map some

theorem IsTableNode.length_columnsOf {nodes : FlattenNodes} {table : TableDeclaration}
    {node : TableNode} (h : nodes.IsTableNode table node) :
    (columnsOf nodes.columnNodes node).length = node.childCount := by
  have hlength := congrArg List.length h.columns
  rw [columnNames, length_map, length_map] at hlength
  rw [hlength, h.count]

/-- The columns that a node has stay when others come behind them. -/
theorem columnsOf_append {columnNodes added : List ColumnNode} {node : TableNode}
    (h : (columnsOf columnNodes node).length = node.childCount) :
    columnsOf (columnNodes ++ added) node = columnsOf columnNodes node := by
  unfold columnsOf at h ⊢
  rw [length_take, length_drop] at h
  by_cases hcount : node.childCount = 0
  · rw [hcount, take_zero, take_zero]
  · rw [drop_append_of_le_length (by omega), take_append_of_le_length]
    rw [length_drop]
    omega

def firstTable (processed : List TableDeclaration) (schemaId : QualifiedCatalogObjectId)
    (name : Name) : Option TableDeclaration :=
  processed.find? fun table => table.catalogSchemaId = schemaId ∧ table.name = name

theorem firstTable_eq_some {processed : List TableDeclaration}
    {schemaId : QualifiedCatalogObjectId} {name : Name} {table : TableDeclaration}
    (h : firstTable processed schemaId name = some table) :
    table ∈ processed ∧ table.catalogSchemaId = schemaId ∧ table.name = name :=
  ⟨mem_of_find?_eq_some h, by simpa using find?_some h⟩

/-- The nodes, when certain tables have come. -/
structure HasTables (nodes : FlattenNodes) (processed : List TableDeclaration) : Prop where
  child : ∀ (id : QualifiedCatalogObjectId) (node : SchemaNode),
    nodes.schemaNodes.get? id = some node → ∀ (name : Name) (child : TableNode),
      node.children[name]? = some child → child ∈ nodes.tableNodes ∧
        ∃ table, firstTable processed id name = some table ∧ nodes.IsTableNode table child
  complete : ∀ id node, nodes.schemaNodes.get? id = some node → ∀ table ∈ processed,
    table.catalogSchemaId = id → table.name ∈ node.children
  taken : ∀ child ∈ nodes.tableNodes, ∃ (id : QualifiedCatalogObjectId) (node : SchemaNode)
    (name : Name), nodes.schemaNodes.get? id = some node ∧ node.children[name]? = some child
  count : nodes.effectiveTableCount = nodes.tableNodes.length
  distinct : nodes.tableNodes.Pairwise fun node other => node.tableId ≠ other.tableId
  columns : nodes.tableNodes.flatMap (columnsOf nodes.columnNodes) = nodes.columnNodes

section Tables

variable {nodes after : FlattenNodes} {processed : List TableDeclaration} {table : TableDeclaration}

theorem HasTables.exists_table (h : HasTables nodes processed) {child : TableNode}
    (hchild : child ∈ nodes.tableNodes) : ∃ table ∈ processed, nodes.IsTableNode table child := by
  obtain ⟨id, node, name, hnode, hname⟩ := h.taken child hchild
  obtain ⟨-, table, hfirst, htable⟩ := h.child id node hnode name child hname
  exact ⟨table, (firstTable_eq_some hfirst).1, htable⟩

theorem HasTables.addTable (h : HasTables nodes processed)
    (hdistinct : ∀ other ∈ processed, other.objectId ≠ table.objectId)
    (hafter : nodes.addTable table = some after) : HasTables after (processed ++ [table]) := by
  have hkept : ∀ id name found, firstTable processed id name = some found →
      firstTable (processed ++ [table]) id name = some found := by
    intro id name found hfound
    unfold firstTable at hfound ⊢
    rw [find?_append, hfound]
    rfl
  obtain ⟨schemaNode, hschema, ⟨hmem, rfl⟩ | ⟨hfresh, added, dictionary, nameId, hprefix, hcolumns,
    hname, rfl⟩⟩ := addTable_cases hafter
  · -- the schema has a table of the name, so another one came first
    refine ⟨fun id node hnode name child hchild => ?_, fun id node hnode other hother hid => ?_,
      h.taken, h.count, h.distinct, h.columns⟩
    · obtain ⟨htaken, found, hfound, hnodeOf⟩ := h.child id node hnode name child hchild
      exact ⟨htaken, found, hkept id name found hfound, hnodeOf⟩
    · rcases mem_append.mp hother with hold | hnew
      · exact h.complete id node hnode other hold hid
      · obtain rfl := mem_singleton.mp hnew
        subst hid
        obtain rfl := some.inj (hschema.symm.trans hnode)
        exact hmem
  · -- the nodes that were there keep their names and their columns
    have hold : ∀ found child, nodes.IsTableNode found child →
        columnsOf (nodes.columnNodes ++ added) child = columnsOf nodes.columnNodes child :=
      fun found child hchild => columnsOf_append hchild.length_columnsOf
    have hnodeOf : ∀ found child, nodes.IsTableNode found child →
        columnNames dictionary (columnsOf (nodes.columnNodes ++ added) child) =
            found.tableColumns.map some ∧
          dictionary[child.nameId]? = some found.name := by
      intro found child hchild
      rw [hold found child hchild]
      exact ⟨columnNames_mono hprefix hchild.columns, getElem?_mono hprefix hchild.name⟩
    have hlength : added.length = table.tableColumns.length := by
      have := congrArg List.length hcolumns
      rwa [columnNames, length_map, length_map] at this
    have hadded : columnsOf (nodes.columnNodes ++ added)
        ⟨table.objectId, nameId, nodes.columnNodes.length, table.tableColumns.length⟩ = added := by
      unfold columnsOf
      rw [drop_left' rfl, ← hlength, List.take_length]
    have hnone : firstTable processed table.catalogSchemaId table.name = none := by
      unfold firstTable
      rw [find?_eq_none]
      intro other hother hsame
      obtain ⟨hid, hothername⟩ := of_decide_eq_true hsame
      have hmem := h.complete _ schemaNode hschema other hother hid
      rw [hothername] at hmem
      exact hfresh hmem
    refine ⟨fun id node hnode name child hchild => ?_, fun id node hnode other hother hid => ?_,
      fun child hchild => ?_, ?_, ?_, ?_⟩
    · dsimp only at hnode ⊢
      by_cases hid : id = table.catalogSchemaId
      · subst hid
        rw [get?_set_self] at hnode
        obtain rfl := some.inj hnode
        dsimp only at hchild
        by_cases hsame : name = table.name
        · subst hsame
          rw [OrderedMap.getElem?_insertIfNew_of_fresh hfresh] at hchild
          obtain rfl := some.inj hchild
          refine ⟨mem_append_right _ (mem_singleton_self _), table, ?_, rfl, hname, rfl, ?_⟩
          · unfold firstTable at hnone ⊢
            rw [find?_append, hnone]
            simp
          · dsimp only
            rw [hadded]
            exact hcolumns
        · rw [OrderedMap.getElem?_insertIfNew_of_ne hsame] at hchild
          obtain ⟨htaken, found, hfound, hfoundNode⟩ := h.child _ schemaNode hschema name child hchild
          obtain ⟨hcolumns', hname'⟩ := hnodeOf found child hfoundNode
          exact ⟨mem_append_left _ htaken, found, hkept _ name found hfound,
            hfoundNode.tableId, hname', hfoundNode.count, hcolumns'⟩
      · rw [get?_set_of_ne hid] at hnode
        obtain ⟨htaken, found, hfound, hfoundNode⟩ := h.child id node hnode name child hchild
        obtain ⟨hcolumns', hname'⟩ := hnodeOf found child hfoundNode
        exact ⟨mem_append_left _ htaken, found, hkept _ name found hfound,
          hfoundNode.tableId, hname', hfoundNode.count, hcolumns'⟩
    · dsimp only at hnode
      by_cases hself : id = table.catalogSchemaId
      · subst hself
        rw [get?_set_self] at hnode
        obtain rfl := some.inj hnode
        refine OrderedMap.mem_insertIfNew_iff.mpr ?_
        rcases mem_append.mp hother with hold | hnew
        · exact .inr (h.complete _ schemaNode hschema other hold hid)
        · exact .inl (congrArg TableDeclaration.name (mem_singleton.mp hnew))
      · rw [get?_set_of_ne hself] at hnode
        rcases mem_append.mp hother with hold | hnew
        · exact h.complete id node hnode other hold hid
        · obtain rfl := mem_singleton.mp hnew
          exact absurd hid.symm hself
    · dsimp only at hchild ⊢
      rcases mem_append.mp hchild with hold | hnew
      · obtain ⟨id, node, name, hnode, hchild⟩ := h.taken child hold
        by_cases hid : id = table.catalogSchemaId
        · subst hid
          obtain rfl := some.inj (hschema.symm.trans hnode)
          refine ⟨_, _, name, get?_set_self, ?_⟩
          rw [OrderedMap.getElem?_insertIfNew_of_mem (OrderedMap.mem_of_getElem? hchild)]
          exact hchild
        · exact ⟨id, node, name, (get?_set_of_ne hid).trans hnode, hchild⟩
      · obtain rfl := mem_singleton.mp hnew
        exact ⟨_, _, table.name, get?_set_self, OrderedMap.getElem?_insertIfNew_of_fresh hfresh⟩
    · dsimp only
      rw [h.count, length_append, length_singleton]
    · dsimp only
      rw [pairwise_append]
      refine ⟨h.distinct, pairwise_singleton _ _, ?_⟩
      intro child hchild other hother
      obtain rfl := mem_singleton.mp hother
      obtain ⟨found, hfound, hfoundNode⟩ := h.exists_table hchild
      rw [hfoundNode.tableId]
      exact hdistinct found hfound
    · dsimp only
      rw [flatMap_append, flatMap_singleton, hadded]
      congr 1
      conv_rhs => rw [← h.columns]
      refine flatMap_congr fun child hchild => ?_
      obtain ⟨found, -, hfoundNode⟩ := h.exists_table hchild
      exact hold found child hfoundNode

theorem HasTables.foldlM_addTable {databases : Set DatabaseReference}
    {schemas : Set SchemaReference} (found : List TableDeclaration) :
    ∀ {nodes : FlattenNodes} {processed : List TableDeclaration},
      HasTables nodes processed → HasReferences nodes databases schemas →
      ((processed ++ found).Pairwise fun table other => table.objectId ≠ other.objectId) →
      (∀ table ∈ found, ∃ ref ∈ schemas, ref.objectId = table.catalogSchemaId) →
      ∃ after, found.foldlM FlattenNodes.addTable nodes = some after ∧
        HasTables after (processed ++ found) ∧ HasReferences after databases schemas := by
  induction found with
  | nil =>
    intro nodes processed h href _ _
    rw [append_nil]
    exact ⟨nodes, rfl, h, href⟩
  | cons table rest ih =>
    intro nodes processed h href hdistinct hschemas
    obtain ⟨middle, hmiddle⟩ := exists_addTable ((href.schema _).mpr (hschemas table mem_cons_self))
    have hother : ∀ other ∈ processed, other.objectId ≠ table.objectId := fun other hother =>
      (pairwise_append.mp hdistinct).2.2 other hother table mem_cons_self
    have happend : processed ++ table :: rest = processed ++ [table] ++ rest := by simp
    rw [happend] at hdistinct ⊢
    obtain ⟨after, hafter, hspec⟩ := ih (h.addTable hother hmiddle) (href.addTable hmiddle)
      hdistinct fun other hother => hschemas other (mem_cons_of_mem _ hother)
    refine ⟨after, ?_, hspec⟩
    rw [foldlM_cons, hmiddle]
    exact hafter

end Tables

/-! ## No tables yet -/

structure NoTables (nodes : FlattenNodes) : Prop where
  children : ∀ id node, nodes.schemaNodes.get? id = some node → node.children = ∅
  tableNodes : nodes.tableNodes = []
  columnNodes : nodes.columnNodes = []
  count : nodes.effectiveTableCount = 0

theorem NoTables.registerDatabase {nodes : FlattenNodes} (h : NoTables nodes)
    (ref : DatabaseReference) : NoTables (nodes.registerDatabase ref) := by
  unfold FlattenNodes.registerDatabase
  split_ifs
  · exact h
  · exact ⟨h.children, h.tableNodes, h.columnNodes, h.count⟩

theorem NoTables.registerSchema {nodes after : FlattenNodes} (h : NoTables nodes)
    {ref : SchemaReference} (hafter : nodes.registerSchema ref = some after) : NoTables after := by
  unfold FlattenNodes.registerSchema at hafter
  split_ifs at hafter
  · obtain rfl := some.inj hafter
    exact h
  · dsimp only at hafter
    split at hafter
    · cases hafter
    · obtain rfl := some.inj hafter
      refine ⟨fun id node hnode => ?_, h.tableNodes, h.columnNodes, h.count⟩
      dsimp only at hnode
      rw [get?_set] at hnode
      split_ifs at hnode
      · obtain rfl := some.inj hnode
        rfl
      · exact h.children id node hnode

theorem NoTables.registerEntry {nodes after : FlattenNodes} (h : NoTables nodes)
    {analyzed : AnalyzedScript} (hafter : nodes.registerEntry analyzed = some after) :
    NoTables after := by
  have hdatabases : ∀ (refs : List DatabaseReference) (nodes : FlattenNodes), NoTables nodes →
      NoTables (refs.foldl FlattenNodes.registerDatabase nodes) := by
    intro refs
    induction refs with
    | nil => exact fun nodes h => h
    | cons ref rest ih => exact fun nodes h => ih _ (h.registerDatabase ref)
  have hschemas : ∀ (refs : List SchemaReference) (nodes : FlattenNodes), NoTables nodes →
      refs.foldlM FlattenNodes.registerSchema nodes = some after → NoTables after := by
    intro refs
    induction refs with
    | nil =>
      intro nodes h hafter
      obtain rfl := some.inj hafter
      exact h
    | cons ref rest ih =>
      intro nodes h hafter
      rw [foldlM_cons] at hafter
      obtain ⟨middle, hmiddle, hafter⟩ := bind_eq_some_iff.mp hafter
      exact ih middle (h.registerSchema hmiddle) hafter
  exact hschemas _ _ (hdatabases _ nodes h) hafter

theorem NoTables.registerEntries (order : List AnalyzedScript) :
    ∀ {nodes after : FlattenNodes}, NoTables nodes →
      order.foldlM FlattenNodes.registerEntry nodes = some after → NoTables after := by
  induction order with
  | nil =>
    intro nodes after h hafter
    obtain rfl := some.inj hafter
    exact h
  | cons analyzed rest ih =>
    intro nodes after h hafter
    rw [foldlM_cons] at hafter
    obtain ⟨middle, hmiddle, hafter⟩ := bind_eq_some_iff.mp hafter
    exact ih (h.registerEntry hmiddle) hafter

theorem NoTables.hasTables {nodes : FlattenNodes} (h : NoTables nodes) : HasTables nodes [] where
  child id node hnode name child hchild := by
    rw [h.children id node hnode] at hchild
    simp at hchild
  complete := by simp
  taken := by simp [h.tableNodes]
  count := by rw [h.count, h.tableNodes, length_nil]
  distinct := by simp [h.tableNodes]
  columns := by rw [h.tableNodes, h.columnNodes, flatMap_nil]

end FlattenNodes

/-! ## All tables -/

section Declared

variable (tables : ∀ analyzed : AnalyzedScript, EntryTables analyzed) (catalog : Catalog)

def declaredTables : List TableDeclaration :=
  catalog.rankedEntries.flatMap (foundAt catalog fun analyzed => (tables analyzed).tableDeclarations)

variable {tables catalog} {entryIdOf : ScriptAddress → CatalogEntryId}

theorem declaredTables_distinct (h : Consistent catalog entryIdOf) :
    (declaredTables tables catalog).Pairwise fun table other => table.objectId ≠ other.objectId := by
  have horigin : ∀ entry table, table ∈ foundAt catalog
      (fun analyzed => (tables analyzed).tableDeclarations) entry →
      table.objectId.origin = entry.2 := by
    intro entry table htable
    obtain ⟨analyzed, hentry, hmem⟩ := mem_foundAt.mp htable
    rw [(tables analyzed).origin_eq hmem]
    exact (h.exists_rank hentry).1
  unfold declaredTables
  rw [pairwise_flatMap]
  constructor
  · intro entry _
    unfold foundAt
    cases hentry : catalog.entries[entry.2]? with
    | none => exact List.Pairwise.nil
    | some analyzed =>
      refine pairwise_iff_getElem.mpr fun i j hi hj hlt heq => hlt.ne ?_
      have hidi := (tables analyzed).table_id i _ (getElem?_eq_getElem hi)
      have hidj := (tables analyzed).table_id j _ (getElem?_eq_getElem hj)
      exact congrArg CatalogTableId.object (hidi.symm.trans (heq.trans hidj))
  · have hvisited := visited_rankedEntries catalog
    refine hvisited.nodup.imp_of_mem ?_
    intro entry other hentry hother hne table htable table' htable' heq
    have hid : entry.2 = other.2 := (horigin entry table htable).symm.trans
      ((congrArg CatalogTableId.origin heq).trans (horigin other table' htable'))
    have hrank := hvisited.ranked entry hentry
    rw [hid] at hrank
    exact hne (Prod.ext (h.rank_unique hrank (hvisited.ranked other hother)) hid)

theorem exists_foldlM_addEntryTables {databases : Set DatabaseReference}
    {schemas : Set SchemaReference} (entries : List (Rank × CatalogEntryId))
    (hloaded : ∀ entry ∈ entries, ∃ analyzed, catalog.entries[entry.2]? = some analyzed ∧
      ∀ ref ∈ analyzed.schemaReferences, ref ∈ schemas) :
    ∀ {nodes : FlattenNodes} {processed : List TableDeclaration},
      nodes.HasTables processed → nodes.HasReferences databases schemas →
      ((processed ++ entries.flatMap (foundAt catalog fun analyzed =>
        (tables analyzed).tableDeclarations)).Pairwise
          fun table other => table.objectId ≠ other.objectId) →
      ∃ after, entries.foldlM (addEntryTables tables catalog) nodes = some after ∧
        after.HasTables (processed ++ entries.flatMap (foundAt catalog fun analyzed =>
          (tables analyzed).tableDeclarations)) ∧
        after.HasReferences databases schemas := by
  induction entries with
  | nil =>
    intro nodes processed h href _
    rw [flatMap_nil, append_nil]
    exact ⟨nodes, rfl, h, href⟩
  | cons entry rest ih =>
    intro nodes processed h href hdistinct
    obtain ⟨analyzed, hentry, hrefs⟩ := hloaded entry mem_cons_self
    have hfound : foundAt catalog (fun analyzed => (tables analyzed).tableDeclarations) entry =
        (tables analyzed).tableDeclarations := by simp [foundAt, hentry]
    rw [flatMap_cons, hfound, ← append_assoc] at hdistinct ⊢
    have hschemas : ∀ table ∈ (tables analyzed).tableDeclarations,
        ∃ ref ∈ schemas, ref.objectId = table.catalogSchemaId := by
      intro table htable
      obtain ⟨ref, href, hid⟩ := (tables analyzed).table_schema table htable
      have hkey := analyzed.schemas_keyed _ ref href
      rw [hkey] at href
      exact ⟨ref, hrefs ref (mem_schemaReferences.mpr href), hid⟩
    obtain ⟨middle, hmiddle, hmiddleTables, hmiddleRefs⟩ := h.foldlM_addTable
      (tables analyzed).tableDeclarations href (pairwise_append.mp hdistinct).1 hschemas
    obtain ⟨after, hafter, hspec⟩ := ih
      (fun other hother => hloaded other (mem_cons_of_mem _ hother)) hmiddleTables hmiddleRefs
      hdistinct
    refine ⟨after, ?_, hspec⟩
    have hstep : addEntryTables tables catalog nodes entry = some middle := by
      rw [addEntryTables, hentry]
      exact hmiddle
    rw [foldlM_cons, hstep]
    exact hafter

end Declared

end DashQL.Catalog
