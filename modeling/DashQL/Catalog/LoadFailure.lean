import DashQL.Catalog.Operations

/-!
# What a failed load leaves behind

`LoadScript` declares the databases and schemas of an analysis one after the
other and throws `CATALOG_ID_OUT_OF_SYNC` at the first one that is registered
under another id.  Nothing undoes the declarations made before.
`loadScript_failure_eq_self_iff` says which failed loads leave the catalog as it
was: those that meet no unregistered name before the conflict.
-/

namespace DashQL.Catalog

/-- The call is a first load that will declare names and then throw: it meets an
unregistered name before the reference that conflicts. -/
def RegistersBeforeConflict (catalog : Catalog) (self : ScriptAddress) (script : Script) : Prop :=
  ∃ analyzed, FirstLoad catalog self script analyzed ∧
    (catalog.databaseConflict analyzed ∨ catalog.schemaConflict analyzed) ∧
    ((∃ ref ∈ catalog.declaredDatabases analyzed, ref.databaseName ∉ catalog.databases) ∨
      ∃ ref ∈ catalog.declaredSchemas analyzed, ref.key ∉ catalog.schemas)

variable {catalog : Catalog}

/-- Declaring changes nothing exactly when every name declared is registered. -/
theorem declare_eq_self_iff {analyzed : AnalyzedScript} :
    catalog.declare analyzed = catalog ↔
      (∀ ref ∈ catalog.declaredDatabases analyzed, ref.databaseName ∈ catalog.databases) ∧
        ∀ ref ∈ catalog.declaredSchemas analyzed, ref.key ∈ catalog.schemas := by
  rw [← foldl_insertIfNew_eq_self_iff DatabaseReference.databaseName,
    ← foldl_insertIfNew_eq_self_iff SchemaReference.key]
  constructor
  · intro heq
    exact ⟨congrArg Catalog.databases heq, congrArg Catalog.schemas heq⟩
  · rintro ⟨hdatabases, hschemas⟩
    unfold declare
    rw [hdatabases, hschemas]

theorem registersBeforeConflict_iff {self : ScriptAddress} {script : Script}
    {analyzed : AnalyzedScript} (hfirst : FirstLoad catalog self script analyzed)
    (hconflict : catalog.databaseConflict analyzed ∨ catalog.schemaConflict analyzed) :
    RegistersBeforeConflict catalog self script ↔ catalog.declare analyzed ≠ catalog := by
  rw [ne_eq, declare_eq_self_iff, not_and_or]
  push Not
  constructor
  · rintro ⟨other, hother, -, hfresh⟩
    cases hfirst.analyzed_eq.symm.trans hother.analyzed_eq
    exact hfresh
  · exact fun hfresh => ⟨analyzed, hfirst, hconflict, hfresh⟩

theorem not_registersBeforeConflict_of_ok {self : ScriptAddress} {script : Script} (rank : Rank)
    (hok : (catalog.loadScript self script rank).2 = .ok) :
    ¬ RegistersBeforeConflict catalog self script := by
  rintro ⟨analyzed, hfirst, hconflict, -⟩
  rw [loadScript_of_firstLoad hfirst, if_pos hconflict] at hok
  cases hok

/-- A failed load leaves the catalog exactly as it was if and only if it
registers no name before it meets the conflict. -/
theorem loadScript_failure_eq_self_iff {catalog : Catalog} {self : ScriptAddress}
    {script : Script} {rank : Rank} (hfail : (catalog.loadScript self script rank).2 ≠ .ok) :
    (catalog.loadScript self script rank).1 = catalog ↔
      ¬ RegistersBeforeConflict catalog self script := by
  have houtcome := loadOutcome_loadScript catalog self script rank
  generalize catalog.loadScript self script rank = result at hfail houtcome ⊢
  cases houtcome with
  | rejected status hstatus hfirst =>
    refine iff_of_true rfl ?_
    rintro ⟨analyzed, hanalyzed, -⟩
    exact hfirst analyzed hanalyzed
  | updated entry analyzed hentry hanalyzed =>
    exact absurd updateScript_status hfail
  | conflict analyzed hfirst hconflict =>
    rw [registersBeforeConflict_iff hfirst hconflict, ne_eq, not_not]
  | loaded analyzed hfirst hdatabases hschemas => exact absurd rfl hfail

/-- Script 1 loads `d.a`.  Script 2 then references `d.b` and `e.a`, script 3
references `d.b` too and is loaded first, so that `d.b` gets two ids. -/
def staleSchemaRun : World :=
  (World.initial 0 (fun _ => 0) id).run
    [.analyze 1 [([100], [97])], .load 1 0, .analyze 2 [([101], [97]), ([100], [98])],
      .analyze 3 [([100], [98])], .load 3 0]

theorem loadScript_failure_eq_self_iff_staleSchemaRun :
    (staleSchemaRun.catalog.loadScript 2 (staleSchemaRun.scripts 2) 0).1 = staleSchemaRun.catalog ↔
      ¬ RegistersBeforeConflict staleSchemaRun.catalog 2 (staleSchemaRun.scripts 2) :=
  loadScript_failure_eq_self_iff (by decide)

/-- Loading script 2 throws at `d.b`, and leaves the database `e` registered. -/
theorem loadScript_failure_not_rolled_back :
    ¬ ∀ (events : List Event) (self : ScriptAddress) (rank : Rank),
      let world := (World.initial 0 (fun _ => 0) id).run events
      (world.catalog.loadScript self (world.scripts self) rank).2 ≠ .ok →
        (world.catalog.loadScript self (world.scripts self) rank).1 = world.catalog := by
  intro hclaim
  have hfailed : (staleSchemaRun.catalog.loadScript 2 (staleSchemaRun.scripts 2) 0).2 ≠ .ok := by
    decide
  have hleft : ([101] : Name) ∈
      (staleSchemaRun.catalog.loadScript 2 (staleSchemaRun.scripts 2) 0).1.databases := by
    decide
  have hkept : (staleSchemaRun.catalog.loadScript 2 (staleSchemaRun.scripts 2) 0).1 =
      staleSchemaRun.catalog := hclaim _ 2 0 hfailed
  rw [hkept] at hleft
  exact absurd hleft (by decide)

end DashQL.Catalog
