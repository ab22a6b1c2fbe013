import DashQL.Catalog.Flatten

/-!
# The database and schema nodes

Nodes are found again by object id and hang below their parents by name, so the tree
is what the references say as long as ids and names stand for one another (`Agreed`).
`HasReferences` is what the nodes are when certain references have been registered.
A schema needs the database that its id starts with: without the node of that
database `at` throws.
-/

namespace DashQL.Catalog

open List Option
open InsertionMap (get?_set_of_ne get?_set_self mem_keys_iff mem_keys_set)

/-- The id of the database below which a schema is put. -/
def SchemaReference.parentId (ref : SchemaReference) : QualifiedCatalogObjectId :=
  .database ref.objectId.unpackDatabaseId

/-- Two references have the same id exactly if they have the same name, and the database id that
a schema id starts with is one of the database of the schema. -/
structure Agreed (databases : Set DatabaseReference) (schemas : Set SchemaReference) : Prop where
  database : ∀ ref ∈ databases, ∀ ref' ∈ databases,
    (ref.databaseName = ref'.databaseName ↔ ref.objectId = ref'.objectId)
  schema : ∀ ref ∈ schemas, ∀ ref' ∈ schemas, (ref.key = ref'.key ↔ ref.objectId = ref'.objectId)
  schemaDatabase : ∀ ref ∈ schemas, ∀ ref' ∈ schemas, ref.parentId = ref'.parentId →
    ref.databaseName = ref'.databaseName
  parent : ∀ ref ∈ schemas, ∀ database ∈ databases, ref.parentId = database.objectId →
    ref.databaseName = database.databaseName

namespace FlattenNodes

/-! ## Names -/

theorem getElem?_addName (dictionary : List Name) (name : Name) :
    (addName dictionary name).2[(addName dictionary name).1]? = some name := by
  unfold addName
  split_ifs with hmem
  · exact getElem?_idxOf hmem
  · exact getElem?_concat_length

/-- The names that are in the dictionary keep their ids. -/
theorem getElem?_addName_of_some {dictionary : List Name} {name found : Name} {id : ℕ}
    (h : dictionary[id]? = some found) : (addName dictionary name).2[id]? = some found := by
  unfold addName
  split_ifs with hmem
  · exact h
  · rw [getElem?_append_left (List.getElem?_eq_some_iff.mp h).1, h]

/-! ## Nodes -/

structure IsDatabaseNode (dictionary : List Name) (databases : Set DatabaseReference)
    (schemas : Set SchemaReference) (id : QualifiedCatalogObjectId) (node : DatabaseNode) :
    Prop where
  databaseId : node.databaseId = id
  name : ∀ ref ∈ databases, ref.objectId = id → dictionary[node.nameId]? = some ref.databaseName
  children : ∀ name schemaId, node.children[name]? = some schemaId ↔
    ∃ ref ∈ schemas, ref.parentId = id ∧ ref.schemaName = name ∧ ref.objectId = schemaId

structure IsSchemaNode (dictionary : List Name) (schemas : Set SchemaReference)
    (id : QualifiedCatalogObjectId) (node : SchemaNode) : Prop where
  schemaId : node.schemaId = id
  name : ∀ ref ∈ schemas, ref.objectId = id → dictionary[node.nameId]? = some ref.schemaName

/-- The nodes, when certain references have been registered. -/
structure HasReferences (nodes : FlattenNodes) (databases : Set DatabaseReference)
    (schemas : Set SchemaReference) : Prop where
  root : ∀ name id, nodes.root[name]? = some id ↔
    ∃ ref ∈ databases, ref.databaseName = name ∧ ref.objectId = id
  database : ∀ id, id ∈ nodes.databaseNodes.keys ↔ ∃ ref ∈ databases, ref.objectId = id
  schema : ∀ id, id ∈ nodes.schemaNodes.keys ↔ ∃ ref ∈ schemas, ref.objectId = id
  parent : ∀ ref ∈ schemas, ref.parentId ∈ nodes.databaseNodes.keys
  databaseNode : ∀ id node, nodes.databaseNodes.get? id = some node →
    IsDatabaseNode nodes.nameDictionary databases schemas id node
  schemaNode : ∀ id node, nodes.schemaNodes.get? id = some node →
    IsSchemaNode nodes.nameDictionary schemas id node

theorem hasReferences_empty : HasReferences empty ∅ ∅ := by
  constructor <;> simp [empty]

section Register

variable {nodes after : FlattenNodes} {databases allDatabases : Set DatabaseReference}
  {schemas allSchemas : Set SchemaReference} {dictionary : List Name}

theorem IsDatabaseNode.addName {id : QualifiedCatalogObjectId} {node : DatabaseNode}
    (h : IsDatabaseNode dictionary databases schemas id node) (name : Name) :
    IsDatabaseNode (FlattenNodes.addName dictionary name).2 databases schemas id node :=
  ⟨h.databaseId, fun ref href hid => getElem?_addName_of_some (h.name ref href hid), h.children⟩

theorem IsSchemaNode.addName {id : QualifiedCatalogObjectId} {node : SchemaNode}
    (h : IsSchemaNode dictionary schemas id node) (name : Name) :
    IsSchemaNode (FlattenNodes.addName dictionary name).2 schemas id node :=
  ⟨h.schemaId, fun ref href hid => getElem?_addName_of_some (h.name ref href hid)⟩

/-- A reference more of an id that does not have a node yet. -/
theorem exists_mem_insert_iff {α : Type} {items : Set α} {item : α} {p : α → Prop} :
    (∃ found ∈ insert item items, p found) ↔ p item ∨ ∃ found ∈ items, p found := by
  simp [Set.mem_insert_iff, or_and_right, exists_or]

theorem HasReferences.registerDatabase (h : HasReferences nodes databases schemas)
    (hagreed : Agreed allDatabases allSchemas) (hsub : databases ⊆ allDatabases)
    {ref : DatabaseReference} (href : ref ∈ allDatabases) :
    HasReferences (nodes.registerDatabase ref) (insert ref databases) schemas := by
  unfold FlattenNodes.registerDatabase
  split_ifs with hmem
  · -- the id has its node, and the name is the one of the node
    obtain ⟨found, hfound, hid⟩ := (h.database ref.objectId).mp hmem
    have hname : found.databaseName = ref.databaseName :=
      (hagreed.database found (hsub hfound) ref href).mpr hid
    refine ⟨fun name id => ?_, fun id => ?_, h.schema, h.parent, fun id node hnode => ?_,
      h.schemaNode⟩
    · rw [h.root, exists_mem_insert_iff, iff_or_self]
      exact fun hsame => ⟨found, hfound, hname.trans hsame.1, hid.trans hsame.2⟩
    · rw [h.database, exists_mem_insert_iff, iff_or_self]
      exact fun hsame => ⟨found, hfound, hid.trans hsame⟩
    · have hold := h.databaseNode id node hnode
      refine ⟨hold.databaseId, fun other hother hsame => ?_, hold.children⟩
      rcases hother with rfl | hother
      · rw [← hname]
        exact hold.name found hfound (hid.trans hsame)
      · exact hold.name other hother hsame
  · have hfresh : ∀ found ∈ databases, found.objectId ≠ ref.objectId :=
      fun found hfound hid => hmem ((h.database _).mpr ⟨found, hfound, hid⟩)
    have hfreshName : ref.databaseName ∉ nodes.root := by
      intro hroot
      obtain ⟨id, hid⟩ := OrderedMap.exists_getElem?_of_mem hroot
      obtain ⟨found, hfound, hname, -⟩ := (h.root _ _).mp hid
      exact hfresh found hfound ((hagreed.database found (hsub hfound) ref href).mp hname)
    dsimp only
    refine ⟨fun name id => ?_, fun id => ?_, h.schema, fun schemaRef hschema => ?_,
      fun id node hnode => ?_, fun id node hnode => (h.schemaNode id node hnode).addName _⟩
    · rw [exists_mem_insert_iff, ← h.root]
      by_cases hname : name = ref.databaseName
      · subst hname
        rw [OrderedMap.getElem?_insertIfNew_of_fresh hfreshName,
          OrderedMap.getElem?_eq_none_iff.mpr hfreshName]
        simp
      · rw [OrderedMap.getElem?_insertIfNew_of_ne hname]
        simp [Ne.symm hname]
    · rw [mem_keys_set, h.database, exists_mem_insert_iff, eq_comm]
    · exact mem_keys_set.mpr (.inr (h.parent schemaRef hschema))
    · by_cases hid : id = ref.objectId
      · subst hid
        rw [get?_set_self] at hnode
        obtain rfl := some.inj hnode
        refine ⟨rfl, fun other hother hsame => ?_, fun name schemaId => ?_⟩
        · rcases hother with rfl | hother
          · exact getElem?_addName _ _
          · exact absurd hsame (hfresh other hother)
        · -- no schema has been put below a node that was not there
          refine iff_of_false (by simp) ?_
          rintro ⟨schemaRef, hschema, hparent, -⟩
          exact hmem (hparent ▸ h.parent schemaRef hschema)
      · rw [get?_set_of_ne hid] at hnode
        have hold := (h.databaseNode id node hnode).addName ref.databaseName
        refine ⟨hold.databaseId, fun other hother hsame => ?_, hold.children⟩
        rcases hother with rfl | hother
        · exact absurd hsame.symm hid
        · exact hold.name other hother hsame

theorem exists_registerSchema {ref : SchemaReference}
    (hparent : ref.parentId ∈ nodes.databaseNodes.keys) :
    ∃ after, nodes.registerSchema ref = some after := by
  unfold FlattenNodes.registerSchema
  split_ifs
  · exact ⟨nodes, rfl⟩
  · obtain ⟨node, hnode⟩ := mem_keys_iff.mp hparent
    have hnode : nodes.databaseNodes.get? (.database ref.objectId.unpackDatabaseId) = some node :=
      hnode
    dsimp only
    rw [hnode]
    exact ⟨_, rfl⟩

theorem HasReferences.registerSchema (h : HasReferences nodes databases schemas)
    (hagreed : Agreed allDatabases allSchemas) (hsub : schemas ⊆ allSchemas)
    {ref : SchemaReference} (href : ref ∈ allSchemas)
    (hafter : nodes.registerSchema ref = some after) :
    HasReferences after databases (insert ref schemas) := by
  unfold FlattenNodes.registerSchema at hafter
  split_ifs at hafter with hmem
  · obtain rfl := some.inj hafter
    obtain ⟨found, hfound, hid⟩ := (h.schema ref.objectId).mp hmem
    have hkey : found.key = ref.key := (hagreed.schema found (hsub hfound) ref href).mpr hid
    have hname : found.schemaName = ref.schemaName := (qualifiedSchema_inj.mp hkey).2
    have hparent : found.parentId = ref.parentId := by
      rw [SchemaReference.parentId, hid, SchemaReference.parentId]
    refine ⟨h.root, h.database, fun id => ?_, fun other hother => ?_, fun id node hnode => ?_,
      fun id node hnode => ?_⟩
    · rw [h.schema, exists_mem_insert_iff, iff_or_self]
      exact fun hsame => ⟨found, hfound, hid.trans hsame⟩
    · rcases hother with rfl | hother
      · rw [← hparent]
        exact h.parent found hfound
      · exact h.parent other hother
    · have hold := h.databaseNode id node hnode
      refine ⟨hold.databaseId, hold.name, fun name schemaId => ?_⟩
      rw [hold.children, exists_mem_insert_iff, iff_or_self]
      exact fun hsame => ⟨found, hfound, hparent.trans hsame.1, hname.trans hsame.2.1,
        hid.trans hsame.2.2⟩
    · have hold := h.schemaNode id node hnode
      refine ⟨hold.schemaId, fun other hother hsame => ?_⟩
      rcases hother with rfl | hother
      · rw [← hname]
        exact hold.name found hfound (hid.trans hsame)
      · exact hold.name other hother hsame
  · have hfresh : ∀ found ∈ schemas, found.objectId ≠ ref.objectId :=
      fun found hfound hid => hmem ((h.schema _).mpr ⟨found, hfound, hid⟩)
    dsimp only at hafter
    split at hafter
    · cases hafter
    next parent hparent =>
    obtain rfl := some.inj hafter
    have hparent : nodes.databaseNodes.get? ref.parentId = some parent := hparent
    have hkeys := mem_keys_iff.mpr ⟨parent, hparent⟩
    have hparentNode := h.databaseNode ref.parentId parent hparent
    have hfreshName : ref.schemaName ∉ parent.children := by
      intro hchild
      obtain ⟨id, hid⟩ := OrderedMap.exists_getElem?_of_mem hchild
      obtain ⟨found, hfound, hsame, hname, -⟩ := (hparentNode.children _ _).mp hid
      have hdatabase := hagreed.schemaDatabase found (hsub hfound) ref href hsame
      exact hfresh found hfound ((hagreed.schema found (hsub hfound) ref href).mp
        (qualifiedSchema_inj.mpr ⟨hdatabase, hname⟩))
    refine ⟨h.root, fun id => ?_, fun id => ?_, fun other hother => ?_, fun id node hnode => ?_,
      fun id node hnode => ?_⟩
    · rw [mem_keys_set, h.database, or_iff_right_iff_imp]
      rintro rfl
      exact (h.database _).mp hkeys
    · rw [mem_keys_set, h.schema, exists_mem_insert_iff, eq_comm]
    · refine mem_keys_set.mpr (.inr ?_)
      rcases hother with rfl | hother
      · exact hkeys
      · exact h.parent other hother
    · by_cases hid : id = ref.parentId
      · subst hid
        have hnode := (get?_set_self.symm.trans hnode)
        obtain rfl := some.inj hnode
        have hold := hparentNode.addName ref.schemaName
        refine ⟨hold.databaseId, hold.name, fun name schemaId => ?_⟩
        dsimp only
        rw [exists_mem_insert_iff, ← hparentNode.children]
        by_cases hname : name = ref.schemaName
        · subst hname
          rw [OrderedMap.getElem?_insertIfNew_of_fresh hfreshName,
            OrderedMap.getElem?_eq_none_iff.mpr hfreshName]
          simp
        · rw [OrderedMap.getElem?_insertIfNew_of_ne hname]
          simp [Ne.symm hname]
      · have hnode := (get?_set_of_ne hid).symm.trans hnode
        have hold := (h.databaseNode id node hnode).addName ref.schemaName
        refine ⟨hold.databaseId, hold.name, fun name schemaId => ?_⟩
        rw [hold.children, exists_mem_insert_iff, iff_or_self]
        exact fun hsame => absurd hsame.1.symm hid
    · by_cases hid : id = ref.objectId
      · subst hid
        have hnode := (get?_set_self.symm.trans hnode)
        obtain rfl := some.inj hnode
        refine ⟨rfl, fun other hother hsame => ?_⟩
        rcases hother with rfl | hother
        · exact getElem?_addName _ _
        · exact absurd hsame (hfresh other hother)
      · have hnode := (get?_set_of_ne hid).symm.trans hnode
        have hold := (h.schemaNode id node hnode).addName ref.schemaName
        refine ⟨hold.schemaId, fun other hother hsame => ?_⟩
        rcases hother with rfl | hother
        · exact absurd hsame.symm hid
        · exact hold.name other hother hsame

/-! ## All entries -/

/-- The database references of some analyses. -/
def databasesOf (order : List AnalyzedScript) : Set DatabaseReference :=
  {ref | ∃ analyzed ∈ order, ref ∈ analyzed.databasesByName}

def schemasOf (order : List AnalyzedScript) : Set SchemaReference :=
  {ref | ∃ analyzed ∈ order, ref ∈ analyzed.schemaReferences}

section

variable (hagreed : Agreed allDatabases allSchemas)

include hagreed

theorem HasReferences.foldl_registerDatabase (refs : List DatabaseReference) :
    ∀ {nodes : FlattenNodes} {databases : Set DatabaseReference},
      HasReferences nodes databases schemas → databases ⊆ allDatabases →
      {ref | ref ∈ refs} ⊆ allDatabases →
      HasReferences (refs.foldl FlattenNodes.registerDatabase nodes)
        (databases ∪ {ref | ref ∈ refs}) schemas := by
  induction refs with
  | nil => intro nodes databases h _ _; simpa using h
  | cons ref rest ih =>
    intro nodes databases h hsub hrefs
    have href : ref ∈ allDatabases := hrefs mem_cons_self
    have hrest : {other | other ∈ rest} ⊆ allDatabases :=
      fun other hother => hrefs (mem_cons_of_mem _ hother)
    have hsets : insert ref databases ∪ {other | other ∈ rest} =
        databases ∪ {other | other ∈ ref :: rest} := by
      ext other
      simp only [Set.mem_union, Set.mem_insert_iff, Set.mem_ofPred_eq, mem_cons]
      tauto
    rw [foldl_cons, ← hsets]
    exact ih (h.registerDatabase hagreed hsub href) (Set.insert_subset href hsub) hrest

theorem HasReferences.foldlM_registerSchema (refs : List SchemaReference) :
    ∀ {nodes after : FlattenNodes} {schemas : Set SchemaReference},
      HasReferences nodes databases schemas → schemas ⊆ allSchemas →
      {ref | ref ∈ refs} ⊆ allSchemas →
      refs.foldlM FlattenNodes.registerSchema nodes = some after →
      HasReferences after databases (schemas ∪ {ref | ref ∈ refs}) := by
  induction refs with
  | nil =>
    intro nodes after schemas h _ _ hafter
    obtain rfl := some.inj hafter
    simpa using h
  | cons ref rest ih =>
    intro nodes after schemas h hsub hrefs hafter
    have href : ref ∈ allSchemas := hrefs mem_cons_self
    have hrest : {other | other ∈ rest} ⊆ allSchemas :=
      fun other hother => hrefs (mem_cons_of_mem _ hother)
    have hsets : insert ref schemas ∪ {other | other ∈ rest} =
        schemas ∪ {other | other ∈ ref :: rest} := by
      ext other
      simp only [Set.mem_union, Set.mem_insert_iff, Set.mem_ofPred_eq, mem_cons]
      tauto
    rw [foldlM_cons] at hafter
    obtain ⟨middle, hmiddle, hafter⟩ := bind_eq_some_iff.mp hafter
    rw [← hsets]
    exact ih (h.registerSchema hagreed hsub href hmiddle) (Set.insert_subset href hsub) hrest hafter

/-- Registering schemas goes well as long as the databases of their ids are there. -/
theorem exists_foldlM_registerSchema (refs : List SchemaReference) :
    ∀ {nodes : FlattenNodes} {schemas : Set SchemaReference},
      HasReferences nodes databases schemas → schemas ⊆ allSchemas →
      {ref | ref ∈ refs} ⊆ allSchemas →
      (∀ ref ∈ refs, ∃ database ∈ databases, database.objectId = ref.parentId) →
      ∃ after, refs.foldlM FlattenNodes.registerSchema nodes = some after := by
  induction refs with
  | nil => exact fun _ _ _ _ => ⟨_, rfl⟩
  | cons ref rest ih =>
    intro nodes schemas h hsub hrefs hparents
    have href : ref ∈ allSchemas := hrefs mem_cons_self
    have hparent := (h.database _).mpr (hparents ref mem_cons_self)
    obtain ⟨middle, hmiddle⟩ := exists_registerSchema hparent
    obtain ⟨after, hafter⟩ := ih (h.registerSchema hagreed hsub href hmiddle)
      (Set.insert_subset href hsub) (fun other hother => hrefs (mem_cons_of_mem _ hother))
      fun other hother => hparents other (mem_cons_of_mem _ hother)
    refine ⟨after, ?_⟩
    rw [foldlM_cons, hmiddle]
    exact hafter

end

theorem HasReferences.registerEntry (h : HasReferences nodes databases schemas)
    (hagreed : Agreed allDatabases allSchemas) (hdatabases : databases ⊆ allDatabases)
    (hschemas : schemas ⊆ allSchemas) {analyzed : AnalyzedScript}
    (hown : {ref | ref ∈ analyzed.databasesByName} ⊆ allDatabases)
    (hownSchemas : {ref | ref ∈ analyzed.schemaReferences} ⊆ allSchemas)
    (hafter : nodes.registerEntry analyzed = some after) :
    HasReferences after (databases ∪ {ref | ref ∈ analyzed.databasesByName})
      (schemas ∪ {ref | ref ∈ analyzed.schemaReferences}) :=
  (h.foldl_registerDatabase hagreed _ hdatabases hown).foldlM_registerSchema hagreed _ hschemas
    hownSchemas hafter

theorem databasesOf_cons (analyzed : AnalyzedScript) (order : List AnalyzedScript) :
    databasesOf (analyzed :: order) =
      {ref | ref ∈ analyzed.databasesByName} ∪ databasesOf order := by
  ext ref
  simp [databasesOf]

theorem schemasOf_cons (analyzed : AnalyzedScript) (order : List AnalyzedScript) :
    schemasOf (analyzed :: order) = {ref | ref ∈ analyzed.schemaReferences} ∪ schemasOf order := by
  ext ref
  simp [schemasOf]

theorem HasReferences.registerEntries (hagreed : Agreed allDatabases allSchemas)
    (order : List AnalyzedScript) :
    ∀ {nodes after : FlattenNodes} {databases : Set DatabaseReference}
      {schemas : Set SchemaReference},
      HasReferences nodes databases schemas → databases ∪ databasesOf order ⊆ allDatabases →
      schemas ∪ schemasOf order ⊆ allSchemas →
      order.foldlM FlattenNodes.registerEntry nodes = some after →
      HasReferences after (databases ∪ databasesOf order) (schemas ∪ schemasOf order) := by
  induction order with
  | nil =>
    intro nodes after databases schemas h _ _ hafter
    obtain rfl := some.inj hafter
    simpa [databasesOf, schemasOf] using h
  | cons analyzed rest ih =>
    intro nodes after databases schemas h hdatabases hschemas hafter
    rw [databasesOf_cons, ← Set.union_assoc] at hdatabases ⊢
    rw [schemasOf_cons, ← Set.union_assoc] at hschemas ⊢
    rw [foldlM_cons] at hafter
    obtain ⟨middle, hmiddle, hafter⟩ := bind_eq_some_iff.mp hafter
    obtain ⟨hold, hown⟩ := Set.union_subset_iff.mp (Set.union_subset_iff.mp hdatabases).1
    obtain ⟨holdSchemas, hownSchemas⟩ := Set.union_subset_iff.mp (Set.union_subset_iff.mp hschemas).1
    exact ih (h.registerEntry hagreed hold holdSchemas hown hownSchemas hmiddle) hdatabases hschemas
      hafter

theorem exists_registerEntries (hagreed : Agreed allDatabases allSchemas)
    (order : List AnalyzedScript) :
    ∀ {nodes : FlattenNodes} {databases : Set DatabaseReference} {schemas : Set SchemaReference},
      HasReferences nodes databases schemas → databases ∪ databasesOf order ⊆ allDatabases →
      schemas ∪ schemasOf order ⊆ allSchemas →
      (∀ analyzed ∈ order, ∀ ref ∈ analyzed.schemaReferences,
        ∃ database ∈ analyzed.databasesByName, database.objectId = ref.parentId) →
      ∃ after, order.foldlM FlattenNodes.registerEntry nodes = some after := by
  induction order with
  | nil => exact fun _ _ _ _ => ⟨_, rfl⟩
  | cons analyzed rest ih =>
    intro nodes databases schemas h hdatabases hschemas hparents
    rw [databasesOf_cons, ← Set.union_assoc] at hdatabases
    rw [schemasOf_cons, ← Set.union_assoc] at hschemas
    obtain ⟨hold, hown⟩ := Set.union_subset_iff.mp (Set.union_subset_iff.mp hdatabases).1
    obtain ⟨holdSchemas, hownSchemas⟩ := Set.union_subset_iff.mp (Set.union_subset_iff.mp hschemas).1
    have hhere : ∀ ref ∈ analyzed.schemaReferences,
        ∃ database ∈ databases ∪ {ref | ref ∈ analyzed.databasesByName},
          database.objectId = ref.parentId := by
      intro ref href
      obtain ⟨database, hdatabase, hid⟩ := hparents analyzed mem_cons_self ref href
      exact ⟨database, .inr hdatabase, hid⟩
    obtain ⟨middle, hmiddle⟩ := exists_foldlM_registerSchema hagreed _
      (h.foldl_registerDatabase hagreed _ hold hown) holdSchemas hownSchemas hhere
    obtain ⟨after, hafter⟩ := ih
      (h.registerEntry hagreed hold holdSchemas hown hownSchemas hmiddle) hdatabases hschemas
      fun other hother => hparents other (mem_cons_of_mem _ hother)
    refine ⟨after, ?_⟩
    have hmiddle : nodes.registerEntry analyzed = some middle := hmiddle
    rw [foldlM_cons, hmiddle]
    exact hafter

end Register

end FlattenNodes

end DashQL.Catalog
