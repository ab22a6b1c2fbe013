import DashQL.Library.Bindings
import DashQL.Native.DuckDBProxy

/-!
# Which sessions the DuckDB proxy has

When no operation is in progress, a connection and its stream or upload should name each other, and
every prepared statement, stream and upload should be of a connection that exists (`Consistent`).
With interleaved operations the first is kept by all of them.  The second is not: a session may be
inserted for a connection that was torn down meanwhile, or after the operation that tears it down
collected what it has to destroy.  If no insertion is as late as that, all is well
(`consistent_of_run`).
-/

namespace DashQL.Native

open Function List Option
open InsertionMap (get?_delete get?_set mem_keys_iff mem_keys_set)

/-! ## What is claimed -/

/-- Connections and their streams and uploads name each other, no connection has both a stream and an
upload, and all sessions are of connections that exist. -/
structure DuckDBProxy.Consistent (proxy : DuckDBProxy) : Prop where
  bound : ∀ kind connection, proxy.HasConnection connection → ∀ id,
    proxy.active kind connection = some id ↔
      ∃ entry, (proxy.sessions (.bound kind)).get? id = some entry ∧ entry.connection = connection
  exclusive : ∀ connection, proxy.HasConnection connection →
    proxy.active .stream connection = none ∨ proxy.active .upload connection = none
  connected : ∀ kind id entry, (proxy.sessions kind).get? id = some entry →
    proxy.HasConnection entry.connection

/-! ## Operations in progress -/

/-- The order in which the sessions are torn down. -/
def SessionKind.rank : SessionKind → ℕ
  | .statement => 0
  | .bound .stream => 1
  | .bound .upload => 2

/-- What a tear-down that destroys the sessions of one kind has still to destroy of another one. -/
def TearDown.remaining (tearDown : TearDown) (current : SessionKind) (ids : List ℕ)
    (kind : SessionKind) : Option (TearDown × List ℕ) :=
  if kind.rank < current.rank then some (tearDown, [])
  else if kind.rank = current.rank then some (tearDown, ids)
  else none

/-- What is still to be destroyed after a session of a kind. -/
def AfterDestroy.remaining (after : AfterDestroy) (current kind : SessionKind) :
    Option (TearDown × List ℕ) :=
  match after with
  | .tearsDown tearDown ids => tearDown.remaining current ids kind
  | _ => none

/-- The sessions of a kind that were collected and are still to be destroyed, if the operation is
past collecting them. -/
def Point.remaining (point : Point) (kind : SessionKind) : Option (TearDown × List ℕ) :=
  match point with
  | .remove current id (.tearsDown tearDown ids) => tearDown.remaining current (id :: ids) kind
  | .findForUnbind current _ _ after => after.remaining (.bound current) kind
  | .unbind current _ _ after => after.remaining (.bound current) kind
  | .collect tearDown current => if kind.rank < current.rank then some (tearDown, []) else none
  | .finishTearDown tearDown => some (tearDown, [])
  | _ => none

/-- The session that is about to be registered, or to be unbound. -/
def Point.transit (kind : BoundKind) (point : Point) : List (ℕ × ConnectionId) :=
  match point with
  | .register current connection id _ _ _ => if current = kind then [(id, connection)] else []
  | .findForUnbind current connection id _ => if current = kind then [(id, connection)] else []
  | .unbind current connection id _ => if current = kind then [(id, connection)] else []
  | _ => []

/-- The session that is about to be inserted into its map. -/
def Point.inserts : Point → Option (SessionKind × ConnectionId)
  | .register kind connection _ _ _ _ => some (.bound kind, connection)
  | .insertStatement connection _ => some (.statement, connection)
  | _ => none

/-- A session is inserted while its connection exists, and before an operation that tears it down
collects the sessions of its kind. -/
def ProxyWorld.InsertsInTime (proxyStep : ProxyStep) (world : ProxyWorld) : Prop :=
  ∀ index native, proxyStep = .runs index native →
    ∀ point, world.operations[index]? = some point →
      ∀ kind connection, point.inserts = some (kind, connection) →
        world.proxy.HasConnection connection ∧
          ∀ other ∈ world.operations, ∀ tearDown ids,
            other.remaining kind = some (tearDown, ids) → tearDown.covers connection = false

/-! ## What is kept -/

namespace DuckDBProxy

/-- The connections of the streams or uploads. -/
def registered (kind : BoundKind) (proxy : DuckDBProxy) (id : ℕ) : Option ConnectionId :=
  ((proxy.sessions (.bound kind)).get? id).map SessionEntry.connection

/-- What is left of the sessions that an operation tears down is still to be destroyed. -/
def Drained (point : Point) (proxy : DuckDBProxy) : Prop :=
  ∀ kind tearDown ids, point.remaining kind = some (tearDown, ids) →
    ∀ id entry, (proxy.sessions kind).get? id = some entry →
      tearDown.covers entry.connection = true → id ∈ ids

structure Kept (proxy : DuckDBProxy) (operations : List Point) : Prop where
  bindings : ∀ kind, (Bindings.mk (proxy.active kind) (proxy.registered kind)
    (operations.flatMap (Point.transit kind))).Consistent proxy.HasConnection
  exclusive : ∀ connection,
    proxy.active .stream connection = none ∨ proxy.active .upload connection = none
  connected : ∀ kind id entry, (proxy.sessions kind).get? id = some entry →
    proxy.HasConnection entry.connection
  drained : ∀ point ∈ operations, proxy.Drained point
  activeIds : ∀ kind connection id, proxy.active kind connection = some id →
    id ≤ proxy.nextSessionId (.bound kind)
  databaseIds : ∀ databaseId ∈ proxy.databases.keys, databaseId ≤ proxy.nextDatabaseId
  connectionIds : ∀ connection, proxy.connectionEntries connection ≠ none →
    connection.databaseId ≤ proxy.nextDatabaseId ∧
      ∀ database, proxy.databases.get? connection.databaseId = some database →
        connection.connectionId < database.nextConnectionId

variable {proxy : DuckDBProxy} {operations rest : List Point} {point : Point}

theorem kept_initial : DuckDBProxy.initial.Kept [] where
  bindings _ :=
    { nodup := nodup_nil
      notRegistered := fun _ _ h => absurd h not_mem_nil
      transitActive := fun _ _ h => absurd h not_mem_nil
      registeredActive := fun _ _ h => absurd h (some_ne_none _).symm
      held := fun _ _ _ h => absurd h (some_ne_none _).symm }
  exclusive _ := .inl rfl
  connected _ _ _ h := absurd h (some_ne_none _).symm
  drained _ h := absurd h not_mem_nil
  activeIds _ _ _ h := absurd h (some_ne_none _).symm
  databaseIds _ h := absurd h not_mem_nil
  connectionIds _ h := absurd rfl h

/-- What is kept says that the proxy is consistent once nothing is in progress. -/
theorem Kept.consistent (h : proxy.Kept []) : proxy.Consistent where
  bound kind connection hconnection id := by
    rw [(h.bindings kind).active_iff hconnection, registered, map_eq_some_iff]
  exclusive connection _ := h.exclusive connection
  connected := h.connected

theorem Kept.perm {operations' : List Point} (h : proxy.Kept operations)
    (hperm : operations.Perm operations') : proxy.Kept operations' :=
  { h with
    bindings := fun kind => (h.bindings kind).perm (hperm.flatMap_right _)
    drained := fun point hpoint => h.drained point (hperm.mem_iff.mpr hpoint) }

theorem kept_schemas (h : proxy.Kept operations) (streamSchemas : ℕ → StreamSchema) :
    ({ proxy with streamSchemas } : DuckDBProxy).Kept operations :=
  { h with }

/-- An operation goes on, or ends, without a change of the maps. -/
theorem Kept.advance (h : proxy.Kept (point :: rest)) {points : List Point}
    (htransit : ∀ kind, points.flatMap (Point.transit kind) = point.transit kind)
    (hdrained : ∀ point ∈ points, proxy.Drained point) : proxy.Kept (points ++ rest) :=
  { h with
    bindings := fun kind => by
      have hbindings := h.bindings kind
      rw [flatMap_cons, ← htransit kind, ← flatMap_append] at hbindings
      exact hbindings
    drained := fun other hother => by
      rcases mem_append.mp hother with hother | hother
      · exact hdrained other hother
      · exact h.drained other (mem_cons_of_mem _ hother) }

/-! ## Databases and connections -/

variable {connection : ConnectionId}

theorem hasConnection_setDatabase {databaseId : ℕ} {database : DatabaseEntry} :
    (proxy.setDatabase databaseId database).HasConnection connection ↔
      if connection.databaseId = databaseId then
        connection.connectionId ∈ database.connections
      else proxy.HasConnection connection := by
  unfold HasConnection setDatabase
  dsimp only
  rw [get?_set]
  split_ifs with hid
  · simp
  · rfl

theorem Kept.createDatabase (h : proxy.Kept operations) (native : NativeCall) :
    (proxy.createDatabase native).1.Kept operations := by
  unfold DuckDBProxy.createDatabase
  split
  next => exact h
  next =>
    have hnew : proxy.databases.get? (proxy.nextDatabaseId + 1) = none := by
      rw [InsertionMap.get?_eq_none_iff]
      intro hmem
      exact absurd (h.databaseIds _ hmem) (by omega)
    have hlive : ∀ connection, (({ proxy with nextDatabaseId := proxy.nextDatabaseId + 1 } :
        DuckDBProxy).setDatabase (proxy.nextDatabaseId + 1)
          { nextConnectionId := 1, connections := [] }).HasConnection connection ↔
        proxy.HasConnection connection := by
      intro connection
      rw [hasConnection_setDatabase]
      split_ifs with hid
      · refine iff_of_false not_mem_nil ?_
        rintro ⟨database, hdatabase, -⟩
        rw [hid, hnew] at hdatabase
        exact absurd hdatabase (some_ne_none _).symm
      · rfl
    exact
      { bindings := fun kind => (h.bindings kind).mono fun connection => (hlive connection).mp
        exclusive := h.exclusive
        connected := fun kind id entry hentry => (hlive _).mpr (h.connected kind id entry hentry)
        drained := h.drained
        activeIds := h.activeIds
        databaseIds := by
          intro databaseId hmem
          rcases mem_keys_set.mp hmem with rfl | hmem
          · exact le_rfl
          · exact (h.databaseIds databaseId hmem).trans (Nat.le_succ _)
        connectionIds := by
          intro connection hentry
          obtain ⟨hle, hlt⟩ := h.connectionIds connection hentry
          refine ⟨hle.trans (Nat.le_succ _), fun database hdatabase => ?_⟩
          have hne : connection.databaseId ≠ proxy.nextDatabaseId + 1 := by omega
          exact hlt database ((InsertionMap.get?_set_of_ne hne).symm.trans hdatabase) }

theorem Kept.connect (h : proxy.Kept operations) (native : NativeCall) (databaseId : ℕ) :
    (proxy.connect native databaseId).1.Kept operations := by
  unfold DuckDBProxy.connect
  split
  next => exact h
  next database hdatabase =>
    split
    next => exact h
    next =>
      -- The new connection has no entry, and so no active sessions, before and after.
      have hnew : proxy.connectionEntries ⟨databaseId, database.nextConnectionId⟩ = none := by
        by_contra hentry
        exact absurd ((h.connectionIds _ hentry).2 database hdatabase) (Nat.lt_irrefl _)
      have hactive : ∀ kind, ((proxy.setDatabase databaseId
          { nextConnectionId := database.nextConnectionId + 1
            connections := database.connections ++ [database.nextConnectionId] }
          ).setConnectionEntry ⟨databaseId, database.nextConnectionId⟩
            { activeStreamId := none, activeUploadId := none }).active kind =
          proxy.active kind := by
        intro kind
        funext connection
        change (Function.update proxy.connectionEntries _ _ connection).bind _ =
          (proxy.connectionEntries connection).bind _
        rw [update_apply]
        split_ifs with hconnection
        · rw [hconnection, hnew]
          cases kind <;> rfl
        · rfl
      have hlive : ∀ connection, (proxy.setDatabase databaseId
          { nextConnectionId := database.nextConnectionId + 1
            connections := database.connections ++ [database.nextConnectionId] }
          ).HasConnection connection ↔
          connection = ⟨databaseId, database.nextConnectionId⟩ ∨
            proxy.HasConnection connection := by
        intro connection
        rw [hasConnection_setDatabase]
        split_ifs with hid
        · obtain ⟨ownId, connectionId⟩ := connection
          obtain rfl : ownId = databaseId := hid
          simp [HasConnection, hdatabase, or_comm]
        · refine (or_iff_right ?_).symm
          rintro rfl
          exact hid rfl
      exact
        { bindings := fun kind => by
            rw [hactive]
            refine (h.bindings kind).insertSlot (fun connection => (hlive connection).mp) ?_
            change (proxy.connectionEntries _).bind _ = none
            rw [hnew]
            rfl
          exclusive := fun connection => by
            rw [hactive, hactive]
            exact h.exclusive connection
          connected := fun kind id entry hentry =>
            (hlive _).mpr (.inr (h.connected kind id entry hentry))
          drained := h.drained
          activeIds := fun kind => by
            rw [hactive]
            exact h.activeIds kind
          databaseIds := by
            intro id hmem
            rcases mem_keys_set.mp hmem with rfl | hmem
            · exact h.databaseIds _ (mem_keys_iff.mpr ⟨database, hdatabase⟩)
            · exact h.databaseIds id hmem
          connectionIds := by
            intro connection hentry
            change Function.update proxy.connectionEntries _ _ connection ≠ none at hentry
            have hold : connection = ⟨databaseId, database.nextConnectionId⟩ ∨
                connection.databaseId ≤ proxy.nextDatabaseId ∧
                  ∀ database, proxy.databases.get? connection.databaseId = some database →
                    connection.connectionId < database.nextConnectionId := by
              rw [update_apply] at hentry
              split_ifs at hentry with hconnection
              · exact .inl hconnection
              · exact .inr (h.connectionIds connection hentry)
            rcases hold with rfl | ⟨hle, hlt⟩
            · refine ⟨h.databaseIds _ (mem_keys_iff.mpr ⟨database, hdatabase⟩), ?_⟩
              intro database' hdatabase'
              obtain rfl := some.inj (InsertionMap.get?_set_self.symm.trans hdatabase')
              exact Nat.lt_succ_self _
            · refine ⟨hle, fun database' hdatabase' => ?_⟩
              change (proxy.databases.set databaseId _).get? _ = _ at hdatabase'
              rw [get?_set] at hdatabase'
              split_ifs at hdatabase' with hid
              · obtain rfl := some.inj hdatabase'
                exact (hlt database (hid ▸ hdatabase)).trans (Nat.lt_succ_self _)
              · exact hlt database' hdatabase' }

theorem Kept.shrink (h : proxy.Kept operations) {databases : InsertionMap ℕ DatabaseEntry}
    (hdatabases : ∀ databaseId database', databases.get? databaseId = some database' →
      ∃ database, proxy.databases.get? databaseId = some database ∧
        database'.nextConnectionId = database.nextConnectionId ∧
        database'.connections ⊆ database.connections)
    (hconnected : ∀ kind id entry, (proxy.sessions kind).get? id = some entry →
      ({ proxy with databases } : DuckDBProxy).HasConnection entry.connection) :
    ({ proxy with databases } : DuckDBProxy).Kept operations where
  bindings kind := (h.bindings kind).mono fun connection => by
    rintro ⟨database', hdatabase', hmem⟩
    obtain ⟨database, hdatabase, -, hsubset⟩ := hdatabases _ _ hdatabase'
    exact ⟨database, hdatabase, hsubset hmem⟩
  exclusive := h.exclusive
  connected := hconnected
  drained := h.drained
  activeIds := h.activeIds
  databaseIds := by
    intro databaseId hmem
    obtain ⟨database', hdatabase'⟩ := mem_keys_iff.mp hmem
    obtain ⟨database, hdatabase, -⟩ := hdatabases databaseId database' hdatabase'
    exact h.databaseIds databaseId (mem_keys_iff.mpr ⟨database, hdatabase⟩)
  connectionIds := by
    intro connection hentry
    obtain ⟨hle, hlt⟩ := h.connectionIds connection hentry
    refine ⟨hle, fun database' hdatabase' => ?_⟩
    obtain ⟨database, hdatabase, hnext, -⟩ := hdatabases _ _ hdatabase'
    rw [hnext]
    exact hlt database hdatabase

theorem Kept.shrinkDatabase (h : proxy.Kept operations) {databaseId : ℕ} {database : DatabaseEntry}
    (hdatabase : proxy.databases.get? databaseId = some database) {connections : List ℕ}
    (hsubset : connections ⊆ database.connections)
    (hkept : ∀ kind id entry, (proxy.sessions kind).get? id = some entry →
      entry.connection.databaseId = databaseId →
      entry.connection.connectionId ∈ database.connections →
      entry.connection.connectionId ∈ connections) :
    (proxy.setDatabase databaseId { database with connections }).Kept operations := by
  refine h.shrink ?_ ?_
  · intro id database' hdatabase'
    rw [get?_set] at hdatabase'
    split_ifs at hdatabase' with hid
    · obtain rfl := some.inj hdatabase'
      exact ⟨database, hid ▸ hdatabase, rfl, hsubset⟩
    · exact ⟨database', hdatabase', rfl, List.Subset.refl _⟩
  · intro kind id entry hentry
    refine hasConnection_setDatabase.mpr ?_
    obtain ⟨database', hdatabase', hmem⟩ := h.connected kind id entry hentry
    split_ifs with hid
    · rw [hid] at hdatabase'
      obtain rfl := some.inj (hdatabase.symm.trans hdatabase')
      exact hkept kind id entry hentry hid hmem
    · exact ⟨database', hdatabase', hmem⟩

/-- The end of an operation that tears down connections, which have no sessions left. -/
theorem Kept.finishTearDown {tearDown : TearDown} (h : proxy.Kept (.finishTearDown tearDown :: rest))
    (native : NativeCall) : (proxy.finishTearDown native tearDown).1.Kept rest := by
  have hnone : ∀ kind id entry, (proxy.sessions kind).get? id = some entry →
      tearDown.covers entry.connection = true → False := by
    intro kind id entry hentry hcovers
    exact not_mem_nil (h.drained _ mem_cons_self kind tearDown [] rfl id entry hentry hcovers)
  have hrest : proxy.Kept ([] ++ rest) :=
    h.advance (fun _ => rfl) fun _ hmem => absurd hmem not_mem_nil
  unfold DuckDBProxy.finishTearDown
  cases tearDown with
  | disconnect connection =>
    dsimp only
    split
    next => exact hrest
    next database hdatabase =>
      split_ifs
      · refine hrest.shrinkDatabase hdatabase filter_sublist.subset ?_
        intro kind id entry hentry hid hmem
        refine mem_filter.mpr ⟨hmem, decide_eq_true ?_⟩
        intro hconnection
        refine hnone kind id entry hentry ?_
        simp [TearDown.covers, hid, hconnection]
      · exact hrest
  | resetDatabase databaseId =>
    dsimp only
    split
    next => exact hrest
    next database hdatabase =>
      refine hrest.shrinkDatabase hdatabase (nil_subset _) ?_
      intro kind id entry hentry hid _
      exact (hnone kind id entry hentry (decide_eq_true hid)).elim
  | destroyDatabase databaseId =>
    dsimp only
    split_ifs
    · refine hrest.shrink ?_ ?_
      · intro id database hdatabase
        rw [get?_delete] at hdatabase
        split_ifs at hdatabase
        exact ⟨database, hdatabase, rfl, List.Subset.refl _⟩
      · intro kind id entry hentry
        obtain ⟨database, hdatabase, hmem⟩ := hrest.connected kind id entry hentry
        refine ⟨database, ?_, hmem⟩
        change (proxy.databases.delete databaseId).get? _ = _
        rw [get?_delete, if_neg ?_, hdatabase]
        intro hid
        exact hnone kind id entry hentry (decide_eq_true hid)
    · exact hrest

/-! ## Streams and uploads -/

variable {kind : BoundKind}

theorem active_setConnectionEntry {entry : ConnectionEntry} :
    (proxy.setConnectionEntry connection entry).active kind =
      Function.update (proxy.active kind) connection (entry.active kind) := by
  funext other
  change (Function.update proxy.connectionEntries _ _ other).bind _ = _
  rw [update_apply, update_apply]
  split_ifs
  · rfl
  · rfl

theorem active_setActive {current : BoundKind} {id : Option ℕ} {entry : ConnectionEntry} :
    (entry.setActive current id).active kind = if kind = current then id else entry.active kind := by
  cases kind <;> cases current <;> rfl

theorem active_set {current : BoundKind} {entry : ConnectionEntry}
    (hentry : proxy.connectionEntries connection = some entry) (id : Option ℕ) :
    (proxy.setConnectionEntry connection (entry.setActive current id)).active kind =
      if kind = current then Function.update (proxy.active kind) connection id
      else proxy.active kind := by
  rw [active_setConnectionEntry, active_setActive]
  split_ifs with hkind
  · rfl
  · refine update_eq_self_iff.mpr ?_
    rw [DuckDBProxy.active, hentry]
    rfl

theorem registered_setSessions {current : BoundKind} {sessions : InsertionMap ℕ SessionEntry} :
    (proxy.setSessions (.bound current) sessions).registered kind =
      if kind = current then fun id => (sessions.get? id).map SessionEntry.connection
      else proxy.registered kind := by
  funext id
  change ((Function.update proxy.sessions (.bound current) sessions (.bound kind)).get? id).map _ = _
  rw [update_apply]
  split_ifs with hbound hkind hkind
  · rfl
  · exact absurd (SessionKind.bound.inj hbound) hkind
  · exact absurd (congrArg SessionKind.bound hkind) hbound
  · rfl

/-- A new session becomes active in a connection that has none. -/
theorem Kept.bind {text boundText : String} {schemaChunk : Option Bytes} {use : StartUse}
    {entry : ConnectionEntry} (h : proxy.Kept (.bind kind connection text use :: rest))
    (hentry : proxy.connectionEntries connection = some entry) (hidle : entry.isBusy = false) :
    (proxy.bind kind connection entry).Kept
      (.register kind connection (proxy.nextSessionId (.bound kind) + 1) boundText schemaChunk use ::
        rest) := by
  have hnone : ∀ kind, proxy.active kind connection = none := by
    intro kind
    obtain ⟨hstream, hupload⟩ := Bool.or_eq_false_iff.mp hidle
    rw [DuckDBProxy.active, hentry]
    cases kind with
    | stream => exact (by simpa using hstream : entry.activeStreamId = none)
    | upload => exact (by simpa using hupload : entry.activeUploadId = none)
  have hnew : ∀ other, proxy.active kind other ≠ some (proxy.nextSessionId (.bound kind) + 1) := by
    intro other hactive
    exact absurd (h.activeIds kind other _ hactive) (by omega)
  have hactive : ∀ other, (proxy.bind kind connection entry).active other =
      if other = kind then
        Function.update (proxy.active other) connection
          (some (proxy.nextSessionId (.bound kind) + 1))
      else proxy.active other := fun other => active_set hentry _
  constructor
  · intro other
    rw [hactive]
    by_cases hkind : other = kind
    · subst hkind
      rw [if_pos rfl, flatMap_cons]
      change (Bindings.mk _ _ ((if other = other then _ else _) ++ _)).Consistent _
      rw [if_pos rfl]
      exact (h.bindings other).bind (hnone other) hnew
    · rw [if_neg hkind, flatMap_cons]
      change (Bindings.mk _ _ ((if kind = other then _ else _) ++ _)).Consistent _
      rw [if_neg (Ne.symm hkind)]
      exact h.bindings other
  · intro other
    rw [hactive, hactive]
    by_cases hother : other = connection
    · subst hother
      cases kind with
      | stream => exact .inr (hnone .upload)
      | upload => exact .inl (hnone .stream)
    · have hkept : ∀ kind', (if kind' = kind then
          Function.update (proxy.active kind') connection
            (some (proxy.nextSessionId (.bound kind) + 1))
          else proxy.active kind') other = proxy.active kind' other := by
        intro kind'
        split_ifs
        · exact update_of_ne hother _ _
        · rfl
      rw [hkept, hkept]
      exact h.exclusive other
  · exact h.connected
  · intro point hpoint
    rcases mem_cons.mp hpoint with rfl | hpoint
    · exact fun _ _ _ hremaining => absurd hremaining (some_ne_none _).symm
    · exact h.drained point (mem_cons_of_mem _ hpoint)
  · intro other connection' id hid
    change id ≤ Function.update proxy.nextSessionId (.bound kind) _ (.bound other)
    rw [hactive] at hid
    rw [update_apply]
    by_cases hkind : other = kind
    · subst hkind
      rw [if_pos rfl]
      rw [if_pos rfl, update_apply] at hid
      split_ifs at hid
      · exact (some.inj hid).symm.le
      · exact (h.activeIds other connection' id hid).trans (Nat.le_succ _)
    · rw [if_neg fun hbound => hkind (SessionKind.bound.inj hbound)]
      rw [if_neg hkind] at hid
      exact h.activeIds other connection' id hid
  · exact h.databaseIds
  · intro connection' hentry'
    refine h.connectionIds connection' ?_
    change Function.update proxy.connectionEntries _ _ connection' ≠ none at hentry'
    rw [update_apply] at hentry'
    split_ifs at hentry' with hconnection
    · rw [hconnection, hentry]
      exact some_ne_none _
    · exact hentry'

/-- What a session that is inserted adds to a map. -/
theorem get?_setSessions_set {kind current : SessionKind} {id other : ℕ} {entry found : SessionEntry}
    (h : ((proxy.setSessions current ((proxy.sessions current).set id entry)).sessions kind).get?
      other = some found) :
    kind = current ∧ found = entry ∨ (proxy.sessions kind).get? other = some found := by
  change (Function.update proxy.sessions current _ kind).get? other = some found at h
  rw [update_apply] at h
  split_ifs at h with hkind
  · rw [get?_set] at h
    split_ifs at h
    · exact .inl ⟨hkind, (some.inj h).symm⟩
    · exact .inr (hkind ▸ h)
  · exact .inr h

/-- What is left of a map from which a session is deleted. -/
theorem get?_setSessions_delete {kind current : SessionKind} {id other : ℕ} {found : SessionEntry}
    (h : ((proxy.setSessions current ((proxy.sessions current).delete id)).sessions kind).get?
      other = some found) :
    (kind = current → other ≠ id) ∧ (proxy.sessions kind).get? other = some found := by
  change (Function.update proxy.sessions current _ kind).get? other = some found at h
  rw [update_apply] at h
  split_ifs at h with hkind
  · rw [get?_delete] at h
    split_ifs at h with hid
    exact ⟨fun _ => hid, hkind ▸ h⟩
  · exact ⟨fun heq => absurd heq hkind, h⟩

theorem Drained.insert {kind : SessionKind} {id : ℕ} {entry : SessionEntry}
    (h : proxy.Drained point) (htime : ∀ tearDown ids, point.remaining kind = some (tearDown, ids) →
      tearDown.covers entry.connection = false) :
    (proxy.setSessions kind ((proxy.sessions kind).set id entry)).Drained point := by
  intro other tearDown ids hremaining id' found hfound hcovers
  rcases get?_setSessions_set hfound with ⟨rfl, rfl⟩ | hold
  · exact absurd ((htime tearDown ids hremaining).symm.trans hcovers) Bool.false_ne_true
  · exact h other tearDown ids hremaining id' found hold hcovers

theorem connected_insert {kind : SessionKind} {id : ℕ} {entry : SessionEntry}
    (h : proxy.Kept operations) (hlive : proxy.HasConnection entry.connection) :
    ∀ other id' found, ((proxy.setSessions kind ((proxy.sessions kind).set id entry)).sessions
      other).get? id' = some found → proxy.HasConnection found.connection := by
  intro other id' found hfound
  rcases get?_setSessions_set hfound with ⟨-, rfl⟩ | hold
  · exact hlive
  · exact h.connected other id' found hold

/-- An operation that neither holds a session nor tears down connections. -/
def Plain (points : List Point) : Prop :=
  ∀ point ∈ points, (∀ kind, point.transit kind = []) ∧ ∀ kind, point.remaining kind = none

theorem plain_nil : Plain [] := fun _ h => absurd h not_mem_nil

theorem plain_singleton (htransit : ∀ kind, point.transit kind = [])
    (hremaining : ∀ kind, point.remaining kind = none) : Plain [point] := by
  intro other hother
  obtain rfl := mem_singleton.mp hother
  exact ⟨htransit, hremaining⟩

theorem Plain.flatMap_transit {points : List Point} (h : Plain points) (kind : BoundKind) :
    points.flatMap (Point.transit kind) = [] :=
  List.flatMap_eq_nil_iff.mpr fun point hpoint => (h point hpoint).1 kind

theorem Plain.drained {points : List Point} (h : Plain points) :
    ∀ point ∈ points, proxy.Drained point := by
  intro point hpoint kind tearDown ids hremaining
  exact absurd (((h point hpoint).2 kind).symm.trans hremaining) (some_ne_none _).symm

theorem plain_startNext (use : StartUse) (connection : ConnectionId) (id : ℕ) :
    Plain (use.next connection id).points := by
  cases use with
  | returnsId => exact plain_nil
  | reads use => exact plain_singleton (fun _ => rfl) fun _ => rfl

theorem plain_readNext (use : ReadUse) (connection : ConnectionId) (id : ℕ)
    (batch : DuckDBQueryBatch) : Plain (use.next connection id batch).points := by
  cases use with
  | batch => exact plain_nil
  | raw => exact plain_singleton (fun _ => rfl) fun _ => rfl
  | completion result => exact plain_singleton (fun _ => rfl) fun _ => rfl

/-- The session that became active is registered. -/
theorem Kept.register {id : ℕ} {text : String} {schemaChunk : Option Bytes} {use : StartUse}
    (h : proxy.Kept (.register kind connection id text schemaChunk use :: rest))
    (hlive : proxy.HasConnection connection) (htime : ∀ other ∈ rest, ∀ tearDown ids,
      other.remaining (.bound kind) = some (tearDown, ids) → tearDown.covers connection = false) :
    (proxy.register kind connection id text schemaChunk).Kept
      ((use.next connection id).points ++ rest) := by
  have hplain := plain_startNext use connection id
  have hregistered : (proxy.setSessions (.bound kind)
      ((proxy.sessions (.bound kind)).set id { connection, text })).Kept
        ((use.next connection id).points ++ rest) := by
    constructor
    · intro other
      have hbindings := h.bindings other
      rw [registered_setSessions, flatMap_append, hplain.flatMap_transit, nil_append]
      rw [flatMap_cons] at hbindings
      change (Bindings.mk _ _ ((if kind = other then _ else _) ++ _)).Consistent _ at hbindings
      by_cases hkind : other = kind
      · subst hkind
        rw [if_pos rfl] at hbindings ⊢
        have hupdate : (fun id' => (((proxy.sessions (.bound other)).set id
            { connection, text }).get? id').map SessionEntry.connection) =
            Function.update (proxy.registered other) id (some connection) := by
          funext id'
          rw [get?_set, update_apply]
          split_ifs
          · rfl
          · rfl
        rw [hupdate]
        exact hbindings.register
      · rw [if_neg hkind]
        rw [if_neg (Ne.symm hkind)] at hbindings
        exact hbindings
    · exact h.exclusive
    · exact connected_insert h hlive
    · intro other hother
      rcases mem_append.mp hother with hother | hother
      · exact hplain.drained other hother
      · exact (h.drained other (mem_cons_of_mem _ hother)).insert (htime other hother)
    · exact h.activeIds
    · exact h.databaseIds
    · exact h.connectionIds
  cases kind with
  | stream => exact kept_schemas hregistered _
  | upload => exact hregistered

theorem Kept.insertStatement {sql : String}
    (h : proxy.Kept (.insertStatement connection sql :: rest))
    (hlive : proxy.HasConnection connection) (htime : ∀ other ∈ rest, ∀ tearDown ids,
      other.remaining .statement = some (tearDown, ids) → tearDown.covers connection = false)
    (id : ℕ) :
    ((proxy.allocate .statement).setSessions .statement
      ((proxy.sessions .statement).set id { connection, text := sql })).Kept rest where
  bindings := h.bindings
  exclusive := h.exclusive
  connected := by
    have hconnected := @connected_insert proxy _ .statement id { connection, text := sql } h hlive
    exact hconnected
  drained := fun other hother =>
    (h.drained other (mem_cons_of_mem _ hother)).insert (htime other hother)
  activeIds := h.activeIds
  databaseIds := h.databaseIds
  connectionIds := h.connectionIds

/-! ## Destroying sessions -/

theorem remaining_nextKind (tearDown : TearDown) (current kind : SessionKind) :
    (tearDown.nextKind current).remaining kind = tearDown.remaining current [] kind := by
  rcases current with _ | _ | _ <;> rcases kind with _ | _ | _ <;> rfl

theorem remaining_next (tearDown : TearDown) (current : SessionKind) (ids : List ℕ)
    (kind : SessionKind) :
    (tearDown.next current ids).remaining kind = tearDown.remaining current ids kind := by
  cases ids with
  | nil => exact remaining_nextKind tearDown current kind
  | cons id ids => rfl

theorem transit_next (tearDown : TearDown) (current : SessionKind) (ids : List ℕ)
    (kind : BoundKind) : (tearDown.next current ids).transit kind = [] := by
  cases ids with
  | nil => rcases current with _ | _ | _ <;> rfl
  | cons id ids => rfl

/-- What follows the destruction of a session holds none, and has the same left to do. -/
theorem points_afterNext (after : AfterDestroy) (current : SessionKind) (id : ℕ) :
    ∀ point ∈ (after.next current id).points,
      (∀ kind, point.transit kind = []) ∧ ∀ kind, point.remaining kind = after.remaining current kind := by
  cases after with
  | returns => exact fun _ h => absurd h not_mem_nil
  | finishesRead connection batch use => exact plain_readNext use connection id batch
  | tearsDown tearDown ids =>
    intro point hpoint
    obtain rfl := mem_singleton.mp hpoint
    exact ⟨transit_next tearDown current ids, remaining_next tearDown current ids⟩

theorem flatMap_transit_afterNext (after : AfterDestroy) (current : SessionKind) (id : ℕ)
    (kind : BoundKind) : (after.next current id).points.flatMap (Point.transit kind) = [] :=
  List.flatMap_eq_nil_iff.mpr fun point hpoint =>
    (points_afterNext after current id point hpoint).1 kind

theorem rank_injective : Function.Injective SessionKind.rank := by
  intro kind other h
  rcases kind with _ | _ | _ <;> rcases other with _ | _ | _ <;> first | rfl | cases h

/-- The operation that deleted a session has the ones left to do that follow. -/
theorem Drained.delete {kind : SessionKind} {id : ℕ} {after : AfterDestroy}
    (h : proxy.Drained (.remove kind id after))
    (hpoint : ∀ other, point.remaining other = after.remaining kind other) :
    (proxy.setSessions kind ((proxy.sessions kind).delete id)).Drained point := by
  intro other tearDown ids hremaining id' found hfound hcovers
  obtain ⟨hne, hold⟩ := get?_setSessions_delete hfound
  rw [hpoint] at hremaining
  cases after with
  | returns => exact absurd hremaining (some_ne_none _).symm
  | finishesRead connection batch use => exact absurd hremaining (some_ne_none _).symm
  | tearsDown current left =>
    change current.remaining kind left other = some (tearDown, ids) at hremaining
    have hbefore := h other
    change ∀ tearDown ids, current.remaining kind (id :: left) other = _ → _ at hbefore
    unfold TearDown.remaining at hremaining hbefore
    split_ifs at hremaining with hlt heq
    · obtain ⟨rfl, rfl⟩ := Prod.mk.inj (some.inj hremaining)
      exact hbefore current [] (if_pos hlt) id' found hold hcovers
    · obtain ⟨rfl, rfl⟩ := Prod.mk.inj (some.inj hremaining)
      have hmem := hbefore current (id :: left) (by rw [if_neg hlt, if_pos heq]) id' found hold
        hcovers
      exact (mem_cons.mp hmem).resolve_left (hne (rank_injective heq))

/-- A session is deleted, and what follows holds it if it was bound. -/
theorem Kept.delete {kind : SessionKind} {id : ℕ} {after : AfterDestroy} {points : List Point}
    (h : proxy.Kept (.remove kind id after :: rest))
    (hbindings : ∀ other, (Bindings.mk (proxy.active other)
      ((proxy.setSessions kind ((proxy.sessions kind).delete id)).registered other)
      (points.flatMap (Point.transit other) ++ rest.flatMap (Point.transit other))).Consistent
        proxy.HasConnection)
    (hpoints : ∀ point ∈ points, ∀ other, point.remaining other = after.remaining kind other) :
    (proxy.setSessions kind ((proxy.sessions kind).delete id)).Kept (points ++ rest) where
  bindings other := by
    rw [flatMap_append]
    exact hbindings other
  exclusive := h.exclusive
  connected other id' found hfound :=
    h.connected other id' found (get?_setSessions_delete hfound).2
  drained := by
    intro other hother
    rcases mem_append.mp hother with hother | hother
    · exact (h.drained _ mem_cons_self).delete (hpoints other hother)
    · intro kind' tearDown ids hremaining id' found hfound
      exact h.drained other (mem_cons_of_mem _ hother) kind' tearDown ids hremaining id' found
        (get?_setSessions_delete hfound).2
  activeIds := h.activeIds
  databaseIds := h.databaseIds
  connectionIds := h.connectionIds

/-- Deleting a stream or an upload deletes its binding on this side. -/
theorem registered_delete {current : BoundKind} {id : ℕ} :
    (proxy.setSessions (.bound current)
      ((proxy.sessions (.bound current)).delete id)).registered kind =
      if kind = current then Function.update (proxy.registered kind) id none
      else proxy.registered kind := by
  rw [registered_setSessions]
  split_ifs with hkind
  · obtain rfl := hkind
    funext id'
    rw [get?_delete, update_apply]
    split_ifs
    · rfl
    · rfl
  · rfl

theorem Kept.removeBound {id : ℕ} {after : AfterDestroy} {entry : SessionEntry}
    (h : proxy.Kept (.remove (.bound kind) id after :: rest))
    (hentry : (proxy.sessions (.bound kind)).get? id = some entry) :
    (proxy.setSessions (.bound kind) ((proxy.sessions (.bound kind)).delete id)).Kept
      (.findForUnbind kind entry.connection id after :: rest) := by
  have hfind : ∀ point ∈ [Point.findForUnbind kind entry.connection id after],
      ∀ other, point.remaining other = after.remaining (.bound kind) other := by
    intro point hpoint other
    obtain rfl := mem_singleton.mp hpoint
    rfl
  refine h.delete (fun other => ?_) hfind
  have hbindings := h.bindings other
  rw [registered_delete, flatMap_singleton]
  change (Bindings.mk _ _ ((if kind = other then _ else _) ++ _)).Consistent _
  by_cases hkind : other = kind
  · subst hkind
    rw [if_pos rfl, if_pos rfl]
    refine hbindings.withdraw ?_
    rw [registered, hentry]
    rfl
  · rw [if_neg hkind, if_neg (Ne.symm hkind)]
    exact hbindings

/-- Removing a session that is not there, or a statement. -/
theorem Kept.removeOther {kind : SessionKind} {id : ℕ} {after : AfterDestroy}
    (h : proxy.Kept (.remove kind id after :: rest))
    (hregistered : ∀ other : BoundKind, kind = .bound other →
      (proxy.sessions (.bound other)).get? id = none) :
    (proxy.setSessions kind ((proxy.sessions kind).delete id)).Kept
      ((after.next kind id).points ++ rest) := by
  refine h.delete (fun other => ?_) fun point hpoint =>
    (points_afterNext after kind id point hpoint).2
  rw [flatMap_transit_afterNext]
  have hsame : (proxy.setSessions kind ((proxy.sessions kind).delete id)).registered other =
      proxy.registered other := by
    cases kind with
    | statement => rfl
    | bound current =>
      rw [registered_delete]
      split_ifs with hkind
      · obtain rfl := hkind
        refine update_eq_self_iff.mpr ?_
        rw [registered, hregistered other rfl]
        rfl
      · rfl
  rw [hsame]
  exact h.bindings other

/-- The session of a connection that does not exist any more is forgotten. -/
theorem Kept.forget {id : ℕ} {after : AfterDestroy}
    (h : proxy.Kept (.findForUnbind kind connection id after :: rest))
    (hdead : ¬ proxy.HasConnection connection) :
    proxy.Kept ((after.next (.bound kind) id).points ++ rest) :=
  { h with
    bindings := fun other => by
      have hbindings := h.bindings other
      rw [flatMap_append, flatMap_transit_afterNext]
      rw [flatMap_cons] at hbindings
      change (Bindings.mk _ _ ((if kind = other then _ else _) ++ _)).Consistent _ at hbindings
      by_cases hkind : kind = other
      · rw [if_pos hkind] at hbindings
        exact hbindings.forget hdead
      · rw [if_neg hkind] at hbindings
        exact hbindings
    drained := fun other hother => by
      rcases mem_append.mp hother with hother | hother
      · intro kind' tearDown ids hremaining
        rw [(points_afterNext after _ id other hother).2] at hremaining
        exact h.drained _ mem_cons_self kind' tearDown ids hremaining
      · exact h.drained other (mem_cons_of_mem _ hother) }

/-- A connection names a session no longer that was deleted. -/
theorem Kept.unbind {id : ℕ} {after : AfterDestroy}
    (h : proxy.Kept (.unbind kind connection id after :: rest)) :
    (proxy.unbind kind connection id).Kept ((after.next (.bound kind) id).points ++ rest) := by
  have htransit : (id, connection) ∈
      (Point.unbind kind connection id after :: rest).flatMap (Point.transit kind) := by
    refine mem_flatMap.mpr ⟨_, mem_cons_self, ?_⟩
    change _ ∈ if kind = kind then [(id, connection)] else []
    rw [if_pos rfl]
    exact mem_cons_self
  obtain ⟨entry, hentry, hactive⟩ := bind_eq_some_iff.mp
    ((h.bindings kind).transitActive id connection htransit)
  have hunbind : proxy.unbind kind connection id =
      proxy.setConnectionEntry connection (entry.setActive kind none) := by
    unfold DuckDBProxy.unbind
    rw [hentry]
    exact if_pos hactive
  have hafter : ∀ other, (proxy.setConnectionEntry connection
      (entry.setActive kind none)).active other =
      if other = kind then Function.update (proxy.active other) connection none
      else proxy.active other := fun other => active_set hentry none
  -- A connection has at most what it had.
  have hsome : ∀ other connection' id', (proxy.setConnectionEntry connection
      (entry.setActive kind none)).active other connection' = some id' →
      proxy.active other connection' = some id' := by
    intro other connection' id' hid
    rw [hafter] at hid
    split_ifs at hid
    · rw [update_apply] at hid
      split_ifs at hid
      exact hid
    · exact hid
  have hnone : ∀ other connection', proxy.active other connection' = none →
      (proxy.setConnectionEntry connection (entry.setActive kind none)).active other connection' =
        none := by
    intro other connection' hid
    rw [eq_none_iff_forall_ne_some] at hid ⊢
    exact fun id' hid' => hid id' (hsome other connection' id' hid')
  rw [hunbind]
  constructor
  · intro other
    have hbindings := h.bindings other
    rw [hafter, flatMap_append, flatMap_transit_afterNext]
    rw [flatMap_cons] at hbindings
    change (Bindings.mk _ _ ((if kind = other then _ else _) ++ _)).Consistent _ at hbindings
    by_cases hkind : other = kind
    · subst hkind
      rw [if_pos rfl] at hbindings ⊢
      exact hbindings.unbind
    · rw [if_neg hkind]
      rw [if_neg (Ne.symm hkind)] at hbindings
      exact hbindings
  · intro connection'
    exact (h.exclusive connection').imp (hnone .stream connection') (hnone .upload connection')
  · exact h.connected
  · intro other hother
    rcases mem_append.mp hother with hother | hother
    · intro kind' tearDown ids hremaining
      rw [(points_afterNext after _ id other hother).2] at hremaining
      exact h.drained _ mem_cons_self kind' tearDown ids hremaining
    · exact h.drained other (mem_cons_of_mem _ hother)
  · intro other connection' id' hid
    exact h.activeIds other connection' id' (hsome other connection' id' hid)
  · exact h.databaseIds
  · intro connection' hentry'
    refine h.connectionIds connection' ?_
    change Function.update proxy.connectionEntries _ _ connection' ≠ none at hentry'
    rw [update_apply] at hentry'
    split_ifs at hentry' with hconnection
    · rw [hconnection, hentry]
      exact some_ne_none _
    · exact hentry'

theorem drained_collect (tearDown : TearDown) (kind : SessionKind)
    (h : proxy.Drained (.collect tearDown kind)) :
    proxy.Drained (tearDown.next kind (proxy.collect tearDown kind)) := by
  intro other current ids hremaining id entry hentry hcovers
  rw [remaining_next] at hremaining
  unfold TearDown.remaining at hremaining
  split_ifs at hremaining with hlt heq
  · exact h other current ids ((if_pos hlt).trans hremaining) id entry hentry hcovers
  · obtain ⟨rfl, rfl⟩ := Prod.mk.inj (some.inj hremaining)
    obtain rfl := rank_injective heq
    refine List.mem_map.mpr ⟨(id, entry), mem_filter.mpr ⟨?_, hcovers⟩, rfl⟩
    exact InsertionMap.get?_eq_some_iff.mp hentry

/-! ## Sections and runs -/

theorem plain_usePoint (use : ConnectionUse) (connection : ConnectionId) :
    Plain [use.point connection] := by
  cases use <;> exact plain_singleton (fun _ => rfl) fun _ => rfl

theorem plain_sessionNext (serde : Serde) (use : SessionUse) (connection : ConnectionId) (id : ℕ)
    (entry : SessionEntry) : Plain (use.next serde connection id entry).points := by
  cases use with
  | runsStatement paramsJson use =>
    unfold SessionUse.next
    dsimp only
    split
    · exact plain_singleton (fun _ => rfl) fun _ => rfl
    · exact plain_nil
  | destroysStatement => exact plain_singleton (fun _ => rfl) fun _ => rfl
  | reads limits use => exact plain_singleton (fun _ => rfl) fun _ => rfl
  | destroysStream => exact plain_singleton (fun _ => rfl) fun _ => rfl
  | pushesChunk finish => exact plain_singleton (fun _ => rfl) fun _ => rfl

/-- A section that changes no map, of an operation that holds nothing. -/
theorem Kept.plain (h : proxy.Kept (point :: rest)) {points : List Point} (hplain : Plain points)
    (htransit : ∀ kind, point.transit kind = []) : proxy.Kept (points ++ rest) :=
  h.advance (fun kind => (hplain.flatMap_transit kind).trans (htransit kind).symm) hplain.drained

theorem getConnectionEntry_error {status : DuckDBStatus}
    (h : proxy.getConnectionEntry connection = .error status) :
    ¬ proxy.HasConnection connection := by
  rintro ⟨database, hdatabase, hmem⟩
  unfold getConnectionEntry at h
  rw [hdatabase] at h
  dsimp only at h
  rw [if_pos hmem] at h
  cases h

/-- A section keeps what is kept, if a session that it inserts is in time. -/
theorem Kept.step (serde : Serde) (native : NativeCall) (h : proxy.Kept (point :: rest))
    (htime : ∀ kind connection, point.inserts = some (kind, connection) →
      proxy.HasConnection connection ∧ ∀ other ∈ rest, ∀ tearDown ids,
        other.remaining kind = some (tearDown, ids) → tearDown.covers connection = false) :
    (point.step serde native proxy).1.Kept ((point.step serde native proxy).2.points ++ rest) := by
  cases point with
  | createDatabase => exact (h.plain plain_nil fun _ => rfl).createDatabase native
  | connect databaseId => exact (h.plain plain_nil fun _ => rfl).connect native databaseId
  | findConnection connection use =>
    unfold Point.step
    dsimp only
    split
    next => exact h.plain plain_nil fun _ => rfl
    next => exact h.plain (plain_usePoint use connection) fun _ => rfl
  | findSession kind connection id use =>
    unfold Point.step
    dsimp only
    split
    next => exact h.plain plain_nil fun _ => rfl
    next entry _ =>
      split_ifs
      · exact h.plain (plain_sessionNext serde use connection id entry) fun _ => rfl
      · exact h.plain plain_nil fun _ => rfl
  | bind kind connection text use =>
    unfold Point.step
    dsimp only
    split
    next => exact h.plain plain_nil fun _ => rfl
    next => split_ifs <;> exact h.plain plain_nil fun _ => rfl
    next entry schemaChunk hentry _ =>
      split_ifs with hbusy
      · exact h.plain plain_nil fun _ => rfl
      · exact h.bind hentry (Bool.eq_false_of_not_eq_true hbusy)
    next entry hentry =>
      split_ifs with hbusy
      · exact h.plain plain_nil fun _ => rfl
      · exact h.bind hentry (Bool.eq_false_of_not_eq_true hbusy)
  | register kind connection id text schemaChunk use =>
    obtain ⟨hlive, hothers⟩ := htime _ _ rfl
    exact h.register hlive hothers
  | insertStatement connection sql =>
    obtain ⟨hlive, hothers⟩ := htime _ _ rfl
    exact h.insertStatement hlive hothers _
  | readRound connection streamId limits batch use =>
    unfold Point.step
    dsimp only
    refine kept_schemas (h.plain ?_ fun _ => rfl) _
    split
    next => exact plain_singleton (fun _ => rfl) fun _ => rfl
    next batch' _ => exact plain_readNext use connection streamId batch'
    next => exact plain_singleton (fun _ => rfl) fun _ => rfl
    next => exact plain_nil
  | containsStream connection streamId bytes use =>
    unfold Point.step
    dsimp only
    split
    next =>
      split_ifs
      · exact h.plain (plain_singleton (fun _ => rfl) fun _ => rfl) fun _ => rfl
      · exact h.plain plain_nil fun _ => rfl
    next => exact h.plain plain_nil fun _ => rfl
  | cancel streamId =>
    unfold Point.step
    dsimp only
    split
    next => exact h.plain plain_nil fun _ => rfl
    next => exact h.plain (plain_singleton (fun _ => rfl) fun _ => rfl) fun _ => rfl
  | insertArrow uploadId finish =>
    unfold Point.step
    dsimp only
    split
    next => exact h.plain plain_nil fun _ => rfl
    next =>
      split_ifs
      · exact h.plain (plain_singleton (fun _ => rfl) fun _ => rfl) fun _ => rfl
      · exact h.plain plain_nil fun _ => rfl
  | remove kind id after =>
    unfold Point.step
    dsimp only
    split
    next entry hentry => exact h.removeBound hentry
    next hother =>
      refine h.removeOther ?_
      rintro other rfl
      rw [eq_none_iff_forall_ne_some]
      exact fun entry hentry => hother other entry rfl hentry
  | findForUnbind kind connection id after =>
    unfold Point.step
    dsimp only
    split
    next status herror => exact h.forget (getConnectionEntry_error herror)
    next =>
      refine h.advance (fun _ => ?_) ?_
      · exact flatMap_singleton _ _
      · intro other hother
        obtain rfl := mem_singleton.mp hother
        have hdrained := h.drained (.findForUnbind kind connection id after) mem_cons_self
        exact hdrained
  | unbind kind connection id after => exact h.unbind
  | collect tearDown kind =>
    refine h.advance (fun other => ?_) ?_
    · exact (flatMap_singleton _ _).trans (transit_next tearDown kind _ other)
    · intro other hother
      obtain rfl := mem_singleton.mp hother
      exact drained_collect tearDown kind (h.drained _ mem_cons_self)
  | finishTearDown tearDown => exact h.finishTearDown native

/-- No operation begins within the tear-down of a connection, or with a session. -/
theorem Kept.call (h : proxy.Kept operations) (call : Call) :
    proxy.Kept (operations ++ [call.point]) := by
  have hpoint : ∀ kind, call.point.transit kind = [] := by
    intro kind
    cases call <;> rfl
  have hdrained : proxy.Drained call.point := by
    intro kind tearDown ids hremaining
    have hnone : call.point.remaining kind = none := by
      cases call <;> rcases kind with _ | _ | _ <;> rfl
    exact absurd (hnone.symm.trans hremaining) (some_ne_none _).symm
  exact
    { h with
      bindings := fun kind => by
        rw [flatMap_append, flatMap_singleton, hpoint, append_nil]
        exact h.bindings kind
      drained := fun other hother => by
        rcases mem_append.mp hother with hother | hother
        · exact h.drained other hother
        · obtain rfl := mem_singleton.mp hother
          exact hdrained }

end DuckDBProxy

namespace ProxyWorld

open DuckDBProxy

variable {world : ProxyWorld}

theorem kept_step (serde : Serde) (proxyStep : ProxyStep) (h : world.proxy.Kept world.operations)
    (htime : InsertsInTime proxyStep world) :
    (world.step serde proxyStep).proxy.Kept (world.step serde proxyStep).operations := by
  cases proxyStep with
  | calls call => exact h.call call
  | runs index native =>
    unfold step
    dsimp only
    split
    next => exact h
    next point hpoint =>
      have hsplit : world.operations = world.operations.take index ++
          point :: world.operations.drop (index + 1) := by
        rw [← (List.getElem?_eq_some_iff.mp hpoint).2, cons_getElem_drop_succ, take_append_drop]
      have hperm : world.operations.Perm
          (point :: (world.operations.take index ++ world.operations.drop (index + 1))) := by
        conv_lhs => rw [hsplit]
        exact perm_middle
      have hstep := (h.perm hperm).step serde native fun kind connection hinserts => by
        obtain ⟨hlive, hothers⟩ := htime index native rfl point hpoint kind connection hinserts
        refine ⟨hlive, fun other hother => hothers other ?_⟩
        exact hperm.mem_iff.mpr (mem_cons_of_mem _ hother)
      refine hstep.perm ?_
      rw [append_assoc]
      exact perm_append_comm_assoc _ _ _

/-- In runs in which all sessions are inserted in time, the proxy is consistent whenever no operation
is in progress. -/
theorem consistent_of_run (serde : Serde) {steps : List ProxyStep}
    (htime : ReplayMeets (step serde) InsertsInTime steps initial) :
    ∀ front back, steps = front ++ back →
      (replay (step serde) front initial).operations = [] →
      (replay (step serde) front initial).proxy.Consistent := by
  rintro front back rfl hended
  have hkept := replay_invariant
    (fun world : ProxyWorld => world.proxy.Kept world.operations)
    (fun proxyStep world h => kept_step serde proxyStep h) kept_initial htime.left
  rw [hended] at hkept
  exact hkept.consistent

def prepared : List ProxyStep :=
  connected ++ [.calls (.createPreparedStatement ⟨1, 1⟩ "SELECT 1"), .runs 0 succeeds,
    .runs 0 succeeds]

theorem consistent_of_run_prepared : (replay (step noJson) prepared initial).proxy.Consistent := by
  refine consistent_of_run noJson ?_ prepared [] rfl (by decide +kernel)
  have hcalls : ∀ call world, InsertsInTime (.calls call) world :=
    fun call world index native heq => absurd heq (by simp)
  have hruns : ∀ world point, world.operations = [point] → point.inserts = none →
      InsertsInTime (.runs 0 succeeds) world := by
    intro world point hoperations hinserts index native heq found hfound kind connection hfinds
    obtain ⟨rfl, -⟩ := ProxyStep.runs.inj heq
    rw [hoperations] at hfound
    obtain rfl := some.inj hfound
    exact absurd (hinserts.symm.trans hfinds) (some_ne_none _).symm
  refine ⟨hcalls _ _, hruns _ .createDatabase rfl rfl, hcalls _ _, hruns _ (.connect 1) rfl rfl,
    hcalls _ _, hruns _ (.findConnection ⟨1, 1⟩ (.insertsStatement "SELECT 1")) rfl rfl, ?_,
    trivial⟩
  intro index native heq found hfound kind connection hinserts
  obtain ⟨rfl, -⟩ := ProxyStep.runs.inj heq
  obtain rfl := some.inj hfound
  obtain ⟨rfl, rfl⟩ := Prod.mk.inj (some.inj hinserts)
  refine ⟨⟨⟨2, [1]⟩, rfl, mem_singleton_self 1⟩, ?_⟩
  intro other hother tearDown ids hremaining
  obtain rfl := mem_singleton.mp hother
  exact absurd hremaining (some_ne_none _).symm

/-- A stream that is started while its connection is disconnected. -/
def startedWhileDisconnecting : List ProxyStep :=
  connected ++ [.calls (.startQueryStream ⟨1, 1⟩ "SELECT 1"), .runs 0 succeeds, .runs 0 succeeds,
    .calls (.disconnect ⟨1, 1⟩), .runs 1 succeeds, .runs 1 succeeds, .runs 1 succeeds,
    .runs 1 succeeds, .runs 0 succeeds]

/-- The stream is left without its connection. -/
theorem inconsistent_after_disconnect :
    (replay (step noJson) startedWhileDisconnecting initial).operations = [] ∧
      ¬ (replay (step noJson) startedWhileDisconnecting initial).proxy.Consistent := by
  refine ⟨by decide +kernel, fun hconsistent => ?_⟩
  have hentry : ((replay (step noJson) startedWhileDisconnecting initial).proxy.sessions
      (.bound .stream)).get? 1 = some { connection := ⟨1, 1⟩, text := "" } := by decide +kernel
  have hdatabase : (replay (step noJson) startedWhileDisconnecting initial).proxy.databases.get? 1 =
      some { nextConnectionId := 2, connections := [] } := by decide +kernel
  obtain ⟨database, hfound, hmem⟩ := hconsistent.connected (.bound .stream) 1 _ hentry
  obtain rfl := some.inj (hdatabase.symm.trans hfound)
  exact absurd hmem not_mem_nil

end ProxyWorld

end DashQL.Native
