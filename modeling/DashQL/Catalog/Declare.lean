import DashQL.Catalog.World

/-!
# Declaring the names of an analysis

The two loops of `LoadScript` that declare databases and schemas are one loop
over two kinds of references.  `declareReferences_eq` puts it in closed form: it
inserts exactly the references before the first one whose name is registered
under another id.  With it, `loadOutcome_loadScript` lists the ways a load can
end; what an operation preserves is proved by going through that list.
-/

namespace DashQL.Catalog

open List

section Declare

variable {κ ρ : Type} [LinearOrder κ] {key : ρ → κ} {objectId : ρ → QualifiedCatalogObjectId}

/-- The name of a reference is registered under another id. -/
def conflicts (key : ρ → κ) (objectId : ρ → QualifiedCatalogObjectId)
    (registered : OrderedMap κ ρ) (ref : ρ) : Bool :=
  match registered[key ref]? with
  | some declaration => decide (objectId declaration ≠ objectId ref)
  | none => false

theorem conflicts_congr {registered registered' : OrderedMap κ ρ} {ref : ρ}
    (h : registered[key ref]? = registered'[key ref]?) :
    conflicts key objectId registered ref = conflicts key objectId registered' ref := by
  unfold conflicts
  rw [h]

theorem conflicts_insertIfNew {registered : OrderedMap κ ρ} {ref declared : ρ}
    (hne : key ref ≠ key declared) :
    conflicts key objectId (registered.insertIfNew (key declared) declared) ref =
      conflicts key objectId registered ref :=
  conflicts_congr (OrderedMap.getElem?_insertIfNew_of_ne hne)

private theorem takeWhile_congr {p q : ρ → Bool} {refs : List ρ} (h : ∀ ref ∈ refs, p ref = q ref) :
    refs.takeWhile p = refs.takeWhile q := by
  induction refs with
  | nil => rfl
  | cons ref rest ih =>
    rw [takeWhile_cons, takeWhile_cons, h ref (mem_cons_self ..),
      ih fun other hother => h other (mem_cons_of_mem _ hother)]

theorem declareReferences_eq : ∀ {refs : List ρ} {registered : OrderedMap κ ρ},
    (refs.map key).Nodup →
    declareReferences key objectId refs registered =
      ((refs.takeWhile fun ref => !conflicts key objectId registered ref).foldl
          (fun registered ref => registered.insertIfNew (key ref) ref) registered,
        if refs.any (conflicts key objectId registered) then .catalogIdOutOfSync else .ok) := by
  intro refs
  induction refs with
  | nil => intro registered _; rfl
  | cons ref rest ih =>
    intro registered hnodup
    rw [map_cons, nodup_cons] at hnodup
    rw [declareReferences, takeWhile_cons, any_cons]
    cases hlookup : registered[key ref]? with
    | some declaration =>
      have hmem : key ref ∈ registered := OrderedMap.mem_of_getElem? hlookup
      by_cases hid : objectId declaration = objectId ref
      · have hfree : conflicts key objectId registered ref = false := by
          simp [conflicts, hlookup, hid]
        simp only [hid, ne_eq, not_true_eq_false, if_false, hfree, Bool.not_false, if_true,
          foldl_cons, OrderedMap.insertIfNew_of_mem hmem, Bool.false_or]
        exact ih hnodup.2
      · have hconflict : conflicts key objectId registered ref = true := by
          simp [conflicts, hlookup, hid]
        simp [hid, hconflict]
    | none =>
      have hfree : conflicts key objectId registered ref = false := by
        simp [conflicts, hlookup]
      -- declaring `ref` changes no later check, since the keys are distinct
      have hsame : ∀ other ∈ rest, conflicts key objectId
          (registered.insertIfNew (key ref) ref) other =
            conflicts key objectId registered other := by
        intro other hother
        apply conflicts_insertIfNew
        exact fun heq => hnodup.1 (heq ▸ mem_map_of_mem hother)
      have hany : rest.any (conflicts key objectId (registered.insertIfNew (key ref) ref)) =
          rest.any (conflicts key objectId registered) := by
        rw [Bool.eq_iff_iff, any_eq_true, any_eq_true]
        exact exists_congr fun other => and_congr_right fun hother => by rw [hsame other hother]
      have htake : (rest.takeWhile fun other => !conflicts key objectId
          (registered.insertIfNew (key ref) ref) other) =
            rest.takeWhile fun other => !conflicts key objectId registered other :=
        takeWhile_congr fun other hother => by simp only [hsame other hother]
      simp only [hfree, Bool.not_false, if_true, foldl_cons, Bool.false_or]
      rw [ih hnodup.2, htake, hany]

/-- Inserting references changes nothing exactly when all of them are registered. -/
theorem foldl_insertIfNew_eq_self_iff (key : ρ → κ) {refs : List ρ} {registered : OrderedMap κ ρ} :
    refs.foldl (fun registered ref => registered.insertIfNew (key ref) ref) registered =
      registered ↔ ∀ ref ∈ refs, key ref ∈ registered := by
  constructor
  · intro heq ref href
    rw [← heq, OrderedMap.mem_foldl_insertIfNew]
    exact Or.inl ⟨ref, href, rfl⟩
  · intro hall
    induction refs with
    | nil => rfl
    | cons ref rest ih =>
      rw [foldl_cons, OrderedMap.insertIfNew_of_mem (hall ref (mem_cons_self ..))]
      exact ih fun other hother => hall other (mem_cons_of_mem _ hother)

end Declare

/-! ## The references of an analysis -/

theorem schemaReferences_keys (analyzed : AnalyzedScript) :
    analyzed.schemaReferences.map SchemaReference.key =
      analyzed.schemasByQualifiedName.toList.map Prod.fst := by
  unfold AnalyzedScript.schemaReferences
  rw [map_map]
  refine map_congr_left fun entry hentry => ?_
  exact (analyzed.schemas_keyed entry.1 entry.2 (OrderedMap.mem_toList_iff.mp hentry)).symm

theorem schemaReferences_nodup (analyzed : AnalyzedScript) :
    (analyzed.schemaReferences.map SchemaReference.key).Nodup := by
  rw [schemaReferences_keys]
  exact OrderedMap.keys_nodup _

variable {analyzed : AnalyzedScript}

theorem mem_schemaReferences {ref : SchemaReference} :
    ref ∈ analyzed.schemaReferences ↔ analyzed.schemasByQualifiedName[ref.key]? = some ref := by
  unfold AnalyzedScript.schemaReferences
  rw [mem_map]
  constructor
  · rintro ⟨entry, hentry, rfl⟩
    have hlookup := OrderedMap.mem_toList_iff.mp hentry
    have hkey : entry.1 = SchemaReference.key entry.2 :=
      analyzed.schemas_keyed entry.1 entry.2 hlookup
    rw [← hkey, hlookup]
  · intro hlookup
    exact ⟨(ref.key, ref), OrderedMap.mem_toList_iff.mpr hlookup, rfl⟩

theorem exists_schemaReference_iff {key : QualifiedSchema} :
    (∃ ref ∈ analyzed.schemaReferences, ref.key = key) ↔ key ∈ analyzed.schemasByQualifiedName := by
  constructor
  · rintro ⟨ref, href, rfl⟩
    exact OrderedMap.mem_of_getElem? (mem_schemaReferences.mp href)
  · intro hmem
    obtain ⟨ref, href⟩ := OrderedMap.exists_getElem?_of_mem hmem
    have hkey : key = ref.key := analyzed.schemas_keyed key ref href
    exact ⟨ref, mem_schemaReferences.mpr (hkey ▸ href), hkey.symm⟩

/-! ## The declarations before the first conflict -/

/-- The database references that `LoadScript` declares. -/
def declaredDatabases (catalog : Catalog) (analyzed : AnalyzedScript) : List DatabaseReference :=
  analyzed.databasesByName.takeWhile fun ref =>
    !conflicts DatabaseReference.databaseName DatabaseReference.objectId catalog.databases ref

/-- A database of the analysis is registered under another id. -/
def databaseConflict (catalog : Catalog) (analyzed : AnalyzedScript) : Bool :=
  analyzed.databasesByName.any
    (conflicts DatabaseReference.databaseName DatabaseReference.objectId catalog.databases)

/-- The schema references that `LoadScript` declares: it gets to the schemas
only if no database conflicts. -/
def declaredSchemas (catalog : Catalog) (analyzed : AnalyzedScript) : List SchemaReference :=
  if catalog.databaseConflict analyzed then []
  else analyzed.schemaReferences.takeWhile fun ref =>
    !conflicts SchemaReference.key SchemaReference.objectId catalog.schemas ref

/-- A schema of the analysis is registered under another id. -/
def schemaConflict (catalog : Catalog) (analyzed : AnalyzedScript) : Bool :=
  analyzed.schemaReferences.any
    (conflicts SchemaReference.key SchemaReference.objectId catalog.schemas)

theorem declareDatabases_eq (catalog : Catalog) (analyzed : AnalyzedScript) :
    declareDatabases analyzed.databasesByName catalog.databases =
      ((catalog.declaredDatabases analyzed).foldl
          (fun databases ref => databases.insertIfNew ref.databaseName ref) catalog.databases,
        if catalog.databaseConflict analyzed then .catalogIdOutOfSync else .ok) :=
  declareReferences_eq analyzed.databases_nodup

theorem declareSchemas_eq (catalog : Catalog) (analyzed : AnalyzedScript) :
    declareSchemas analyzed.schemaReferences catalog.schemas =
      ((analyzed.schemaReferences.takeWhile fun ref =>
            !conflicts SchemaReference.key SchemaReference.objectId catalog.schemas ref).foldl
          (fun schemas ref => schemas.insertIfNew ref.key ref) catalog.schemas,
        if catalog.schemaConflict analyzed then .catalogIdOutOfSync else .ok) :=
  declareReferences_eq (schemaReferences_nodup analyzed)

/-! ## How a load ends -/

/-- The catalog with the declarations that a first load makes. -/
def declare (catalog : Catalog) (analyzed : AnalyzedScript) : Catalog :=
  { catalog with
    databases := (catalog.declaredDatabases analyzed).foldl
      (fun databases ref => databases.insertIfNew ref.databaseName ref) catalog.databases
    schemas := (catalog.declaredSchemas analyzed).foldl
      (fun schemas ref => schemas.insertIfNew ref.key ref) catalog.schemas }

/-- The call gets as far as declaring names: the script is analyzed, belongs to
the catalog, is not loaded, and no entry has its id. -/
structure FirstLoad (catalog : Catalog) (key : ScriptAddress) (script : Script)
    (analyzed : AnalyzedScript) : Prop where
  analyzed_eq : script.analyzedScript = some analyzed
  catalog_eq : script.catalog = catalog.address
  not_loaded : key ∉ catalog.scriptEntries
  entry_free : script.catalogEntryId ∉ catalog.entries

/-- The four ways a load can end. -/
inductive LoadOutcome (catalog : Catalog) (self : ScriptAddress) (script : Script) (rank : Rank) :
    Catalog × StatusCode → Prop
  | rejected (status : StatusCode) (hstatus : status ≠ .ok)
      (hfirst : ∀ analyzed, ¬ FirstLoad catalog self script analyzed) :
      LoadOutcome catalog self script rank (catalog, status)
  | updated (entry : ScriptEntry) (analyzed : AnalyzedScript)
      (hentry : catalog.scriptEntries[self]? = some entry)
      (hanalyzed : script.analyzedScript = some analyzed) :
      LoadOutcome catalog self script rank
        (catalog.updateScript self entry script.catalogEntryId analyzed)
  | conflict (analyzed : AnalyzedScript) (hfirst : FirstLoad catalog self script analyzed)
      (hconflict : catalog.databaseConflict analyzed ∨ catalog.schemaConflict analyzed) :
      LoadOutcome catalog self script rank (catalog.declare analyzed, .catalogIdOutOfSync)
  | loaded (analyzed : AnalyzedScript) (hfirst : FirstLoad catalog self script analyzed)
      (hdatabases : catalog.databaseConflict analyzed = false)
      (hschemas : catalog.schemaConflict analyzed = false) :
      LoadOutcome catalog self script rank
        ((catalog.declare analyzed).registerEntry self analyzed rank, .ok)

variable {catalog : Catalog}

theorem loadScript_of_firstLoad {self : ScriptAddress} {script : Script} {rank : Rank}
    (hfirst : FirstLoad catalog self script analyzed) :
    catalog.loadScript self script rank =
      if catalog.databaseConflict analyzed ∨ catalog.schemaConflict analyzed then
        (catalog.declare analyzed, .catalogIdOutOfSync)
      else ((catalog.declare analyzed).registerEntry self analyzed rank, .ok) := by
  have hlookup : catalog.scriptEntries[self]? = none :=
    OrderedMap.getElem?_eq_none_iff.mpr hfirst.not_loaded
  unfold loadScript
  simp only [hfirst.analyzed_eq, hfirst.catalog_eq, ne_eq, not_true_eq_false, if_false, hlookup,
    hfirst.entry_free, declareDatabases_eq, declareSchemas_eq]
  by_cases hdatabase : catalog.databaseConflict analyzed
  · simp [declare, declaredSchemas, hdatabase]
  · by_cases hschema : catalog.schemaConflict analyzed
    · simp [declare, declaredSchemas, hdatabase, hschema]
    · simp [declare, declaredSchemas, hdatabase, hschema]

theorem loadOutcome_loadScript (catalog : Catalog) (self : ScriptAddress) (script : Script)
    (rank : Rank) : LoadOutcome catalog self script rank (catalog.loadScript self script rank) := by
  by_cases hexists : ∃ analyzed, FirstLoad catalog self script analyzed
  · obtain ⟨analyzed, hfirst⟩ := hexists
    rw [loadScript_of_firstLoad hfirst]
    split
    · next hconflict => exact .conflict analyzed hfirst hconflict
    · next hfree =>
        rw [not_or, Bool.not_eq_true, Bool.not_eq_true] at hfree
        exact .loaded analyzed hfirst hfree.1 hfree.2
  · have hnever : ∀ analyzed, ¬ FirstLoad catalog self script analyzed := not_exists.mp hexists
    unfold loadScript
    split
    · exact .rejected _ (by decide) hnever
    next analyzed hanalyzed =>
    split
    · exact .rejected _ (by decide) hnever
    next hcatalog =>
    split
    · next entry hentry => exact .updated entry analyzed hentry hanalyzed
    next hlookup =>
    split
    · exact .rejected _ (by decide) hnever
    next hentry =>
    exact absurd ⟨hanalyzed, not_not.mp hcatalog, OrderedMap.getElem?_eq_none_iff.mp hlookup,
      hentry⟩ (hnever analyzed)

theorem declaredDatabases_of_no_conflict (hfree : catalog.databaseConflict analyzed = false) :
    catalog.declaredDatabases analyzed = analyzed.databasesByName := by
  unfold declaredDatabases
  rw [takeWhile_eq_self_iff]
  intro ref href
  simpa using any_eq_false.mp hfree ref href

theorem declaredSchemas_of_no_conflict (hdatabases : catalog.databaseConflict analyzed = false)
    (hschemas : catalog.schemaConflict analyzed = false) :
    catalog.declaredSchemas analyzed = analyzed.schemaReferences := by
  unfold declaredSchemas
  rw [hdatabases, if_neg Bool.false_ne_true, takeWhile_eq_self_iff]
  intro ref href
  simpa using any_eq_false.mp hschemas ref href

theorem objectId_eq_of_no_databaseConflict (hfree : catalog.databaseConflict analyzed = false)
    {ref declaration : DatabaseReference} (href : ref ∈ analyzed.databasesByName)
    (hdeclared : catalog.databases[ref.databaseName]? = some declaration) :
    declaration.objectId = ref.objectId := by
  have hconflict := any_eq_false.mp hfree ref href
  simpa [conflicts, hdeclared] using hconflict

theorem objectId_eq_of_no_schemaConflict (hfree : catalog.schemaConflict analyzed = false)
    {ref declaration : SchemaReference} (href : ref ∈ analyzed.schemaReferences)
    (hdeclared : catalog.schemas[ref.key]? = some declaration) :
    declaration.objectId = ref.objectId := by
  have hconflict := any_eq_false.mp hfree ref href
  simpa [conflicts, hdeclared] using hconflict

end DashQL.Catalog
