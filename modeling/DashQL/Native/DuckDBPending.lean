import DashQL.Native.DuckDBProxy

/-!
# Queries that are started and read by one operation

`start_pending_query`, `run_prepared_statement` and `send_prepared_statement` start a stream and read
from it.  An error before the stream is started leaves nothing behind.  An error of the read leaves
the stream bound to the connection, and the caller does not know its id (`queries_released_iff`).
-/

namespace DashQL.Native

open Option

variable {serde : Serde} {natives : List NativeCall} {native : NativeCall} {point : Point}
  {proxy proxy' : DuckDBProxy} {connection : ConnectionId} {status : DuckDBStatus} {id : ℕ}

/-- Run an operation by itself, with what the native calls of its sections return. -/
def Point.execute (serde : Serde) :
    List NativeCall → Point → DuckDBProxy → Option (DuckDBProxy × Except DuckDBStatus Reply)
  | [], _, _ => none
  | native :: natives, point, proxy =>
    let stepped := point.step serde native proxy
    match stepped.2 with
    | .goes next => execute serde natives next stepped.1
    | .returns result => some (stepped.1, result)

namespace DuckDBProxy

/-- A connection without a stream and an upload. -/
def Idle (proxy : DuckDBProxy) (connection : ConnectionId) : Prop :=
  proxy.HasConnection connection ∧
    ∃ entry, proxy.connectionEntries connection = some entry ∧ entry.isBusy = false

/-- The connection has no stream, and there are no streams that were not there before. -/
def ReleasedSince (proxy : DuckDBProxy) (connection : ConnectionId) (proxy' : DuckDBProxy) : Prop :=
  proxy'.active .stream connection = none ∧
    ∀ id ∈ (proxy'.sessions (.bound .stream)).keys, id ∈ (proxy.sessions (.bound .stream)).keys

def resolvePreparedSql (serde : Serde) (connection : ConnectionId) (statementId : ℕ)
    (paramsJson : String) (proxy : DuckDBProxy) : Except DuckDBStatus String :=
  match (proxy.sessions .statement).get? statementId with
  | none => .error (SessionKind.unknown connection statementId false .statement)
  | some entry =>
    if entry.connection = connection then substitutePreparedSql serde entry.text paramsJson
    else .error (SessionKind.unknown connection statementId true .statement)

end DuckDBProxy

/-- The native call that starts the query fails, in the section with an index. -/
def StartFails (natives : List NativeCall) (index : ℕ) : Prop :=
  ∃ native message, natives[index]? = some native ∧ native.outcome = .error message

/-! ## Reading -/

/-- An operation that reads a stream that may still be bound. -/
inductive ReadPoint (connection : ConnectionId) (id : ℕ) : Point → Prop where
  | findSession (limits : QueryReadLimits) (use : ReadUse) :
      ReadPoint connection id (.findSession (.bound .stream) connection id (.reads limits use))
  | findConnection (limits : QueryReadLimits) (use : ReadUse) :
      ReadPoint connection id (.findConnection connection (.reads id limits use))
  | readRound (limits : QueryReadLimits) (batch : DuckDBQueryBatch) (use : ReadUse) :
      ReadPoint connection id (.readRound connection id limits batch use)
  | containsStream (bytes : Bytes) (use : ReadUse) :
      ReadPoint connection id (.containsStream connection id bytes use)
  | remove (batch : DuckDBQueryBatch) (use : ReadUse) :
      ReadPoint connection id (.remove (.bound .stream) id (.finishesRead connection batch use))

/-- An operation that read a stream to its end. -/
inductive EndPoint (id : ℕ) : Point → Prop where
  | findForUnbind (bound connection : ConnectionId) (batch : DuckDBQueryBatch) (use : ReadUse) :
      EndPoint id (.findForUnbind .stream bound id (.finishesRead connection batch use))
  | unbind (bound connection : ConnectionId) (batch : DuckDBQueryBatch) (use : ReadUse) :
      EndPoint id (.unbind .stream bound id (.finishesRead connection batch use))
  | containsStream (connection : ConnectionId) (bytes : Bytes) (use : ReadUse) :
      EndPoint id (.containsStream connection id bytes use)

/-- What follows is of some kind, or it is a result of some kind. -/
def Next.Meets (points : Point → Prop) (results : Except DuckDBStatus Reply → Prop) : Next → Prop
  | .goes point => points point
  | .returns result => results result

/-- An operation whose sections stay in some states returns from such a state. -/
theorem execute_of_meets {states : Point → DuckDBProxy → Prop}
    {results : DuckDBProxy → Except DuckDBStatus Reply → Prop}
    (hstep : ∀ native point proxy, states point proxy →
      (point.step serde native proxy).2.Meets
        (fun next => states next (point.step serde native proxy).1)
        (results (point.step serde native proxy).1)) {result : Except DuckDBStatus Reply} :
    ∀ {natives : List NativeCall} {point : Point} {proxy : DuckDBProxy}, states point proxy →
      point.execute serde natives proxy = some (proxy', result) → results proxy' result := by
  intro natives
  induction natives with
  | nil => intro point proxy _ h; cases h
  | cons native natives ih =>
    intro point proxy hstate h
    have hmeets := hstep native point proxy hstate
    unfold Point.execute at h
    dsimp only at h
    split at h
    next next hnext =>
      rw [hnext] at hmeets
      exact ih hmeets h
    next result' hnext =>
      rw [hnext] at hmeets
      obtain ⟨rfl, rfl⟩ := Prod.mk.inj (some.inj h)
      exact hmeets

/-- An operation reads a stream that is bound to its connection, or read it to its end. -/
def Reading (connection : ConnectionId) (id : ℕ) (point : Point) (proxy : DuckDBProxy) : Prop :=
  ReadPoint connection id point ∧ proxy.active .stream connection = some id ∨
    EndPoint id point ∧ id ∉ (proxy.sessions (.bound .stream)).keys

/-- With an error the stream is still bound. -/
def BoundIfError (connection : ConnectionId) (id : ℕ) (proxy : DuckDBProxy)
    (result : Except DuckDBStatus Reply) : Prop :=
  ∀ status, result = .error status → proxy.active .stream connection = some id

theorem boundIfError_ok {reply : Reply} : BoundIfError connection id proxy (.ok reply) :=
  fun _ h => absurd h (by simp)

/-- After a batch the operation returns it, or looks whether the stream exists. -/
theorem meets_readNext {points : Point → Prop} {owner : ConnectionId} (batch : DuckDBQueryBatch)
    (use : ReadUse) (h : ∀ bytes use, points (.containsStream owner id bytes use)) :
    (use.next owner id batch).Meets points (BoundIfError connection id proxy) := by
  cases use with
  | batch => exact boundIfError_ok
  | raw => exact h _ _
  | completion result => exact h _ _

theorem reading_step (native : NativeCall) (h : Reading connection id point proxy) :
    (point.step serde native proxy).2.Meets
      (fun next => Reading connection id next (point.step serde native proxy).1)
      (BoundIfError connection id (point.step serde native proxy).1) := by
  rcases h with ⟨hpoint, hactive⟩ | ⟨hpoint, hgone⟩
  · cases hpoint with
    | findSession limits use =>
      unfold Point.step
      dsimp only
      split
      next => exact fun _ _ => hactive
      next =>
        split_ifs
        · exact .inl ⟨.findConnection limits use, hactive⟩
        · exact fun _ _ => hactive
    | findConnection limits use =>
      unfold Point.step
      dsimp only
      split
      next => exact fun _ _ => hactive
      next => exact .inl ⟨.readRound limits .empty use, hactive⟩
    | readRound limits batch use =>
      unfold Point.step
      dsimp only
      split
      next batch' _ => exact .inl ⟨.readRound limits batch' use, hactive⟩
      next batch' _ =>
        exact meets_readNext batch' use fun bytes use =>
          .inl ⟨.containsStream bytes use, hactive⟩
      next batch' _ => exact .inl ⟨.remove batch' use, hactive⟩
      next => exact fun _ _ => hactive
    | containsStream bytes use =>
      unfold Point.step
      dsimp only
      split
      next =>
        split_ifs
        · exact .inl ⟨.findSession rawReadLimits _, hactive⟩
        · exact boundIfError_ok
      next => exact boundIfError_ok
    | remove batch use =>
      unfold Point.step
      dsimp only
      have hgone : id ∉ ((proxy.setSessions (.bound .stream)
          ((proxy.sessions (.bound .stream)).delete id)).sessions (.bound .stream)).keys := by
        change id ∉ (Function.update proxy.sessions _ _ _).keys
        rw [Function.update_self, InsertionMap.mem_keys_delete]
        exact fun hmem => hmem.1 rfl
      split
      next kind entry hkind _ =>
        obtain rfl := SessionKind.bound.inj hkind
        exact .inr ⟨.findForUnbind entry.connection connection batch use, hgone⟩
      next =>
        exact meets_readNext batch use fun bytes use =>
          .inr ⟨.containsStream connection bytes use, hgone⟩
  · cases hpoint with
    | findForUnbind bound owner batch use =>
      unfold Point.step
      dsimp only
      split
      next =>
        exact meets_readNext batch use fun bytes use =>
          .inr ⟨.containsStream owner bytes use, hgone⟩
      next => exact .inr ⟨.unbind bound owner batch use, hgone⟩
    | unbind bound owner batch use =>
      have hkept : (proxy.unbind .stream bound id).sessions = proxy.sessions := by
        unfold DuckDBProxy.unbind
        split
        · split_ifs <;> rfl
        · rfl
      refine meets_readNext batch use fun bytes use => .inr ⟨.containsStream owner bytes use, ?_⟩
      change id ∉ ((proxy.unbind .stream bound id).sessions (.bound .stream)).keys
      rw [hkept]
      exact hgone
    | containsStream owner bytes use =>
      unfold Point.step
      dsimp only
      split
      next =>
        rw [if_neg hgone]
        exact boundIfError_ok
      next => exact boundIfError_ok

/-! ## Starting and reading -/

theorem getConnectionEntry_ok (h : proxy.HasConnection connection) :
    proxy.getConnectionEntry connection = .ok () := by
  obtain ⟨database, hdatabase, hmem⟩ := h
  unfold DuckDBProxy.getConnectionEntry
  rw [hdatabase]
  exact if_pos hmem

theorem active_of_idle {entry : ConnectionEntry}
    (hentry : proxy.connectionEntries connection = some entry) (hidle : entry.isBusy = false) :
    proxy.active .stream connection = none := by
  have hnone := (Bool.or_eq_false_iff.mp hidle).1
  rw [DuckDBProxy.active, hentry]
  exact (by simpa using hnone : entry.activeStreamId = none)

theorem active_bind {entry : ConnectionEntry} :
    (proxy.bind .stream connection entry).active .stream connection =
      some (proxy.nextSessionId (.bound .stream) + 1) := by
  change (Function.update proxy.connectionEntries connection _ connection).bind _ = _
  rw [Function.update_self]
  rfl

theorem releasedSince_iff_of_start (hidle : proxy.Idle connection) {sql : String} {use : ReadUse}
    (h : (Point.startQueryStream connection sql (.reads use)).execute serde natives proxy =
      some (proxy', .error status)) :
    proxy.ReleasedSince connection proxy' ↔ StartFails natives 1 := by
  obtain ⟨hconnection, entry, hentry, hbusy⟩ := hidle
  cases natives with
  | nil => cases h
  | cons find natives =>
    have hfind : (Point.startQueryStream connection sql (.reads use)).step serde find proxy =
        (proxy, .goes (.bind .stream connection sql (.reads use))) := by
      unfold Point.step Point.startQueryStream
      dsimp only
      rw [getConnectionEntry_ok hconnection]
      rfl
    unfold Point.execute at h
    rw [hfind] at h
    change Point.execute serde natives (.bind .stream connection sql (.reads use)) proxy = _ at h
    cases natives with
    | nil => cases h
    | cons start natives =>
      unfold Point.execute at h
      cases houtcome : start.outcome with
      | error message =>
        have hstart : (Point.bind .stream connection sql (.reads use)).step serde start proxy =
            (proxy, .returns (.error (.operationFailed "start query stream" message))) := by
          unfold Point.step
          dsimp only
          rw [hentry, houtcome]
          dsimp only
          rw [hbusy]
          rfl
        rw [hstart] at h
        obtain ⟨rfl, -⟩ := Prod.mk.inj (some.inj h)
        refine iff_of_true ⟨active_of_idle hentry hbusy, fun _ hmem => hmem⟩ ?_
        exact ⟨start, message, rfl, houtcome⟩
      | ok schemaChunk =>
        have hstart : (Point.bind .stream connection sql (.reads use)).step serde start proxy =
            (proxy.bind .stream connection entry,
              .goes (.register .stream connection (proxy.nextSessionId (.bound .stream) + 1) ""
                schemaChunk (.reads use))) := by
          unfold Point.step
          dsimp only
          rw [hentry, houtcome]
          dsimp only
          rw [hbusy]
          rfl
        rw [hstart] at h
        refine iff_of_false (fun hreleased => ?_) ?_
        · cases natives with
          | nil => cases h
          | cons insert natives =>
            have hread : Reading connection (proxy.nextSessionId (.bound .stream) + 1)
                (.readQueryStream connection (proxy.nextSessionId (.bound .stream) + 1)
                  rawReadLimits use)
                ((proxy.bind .stream connection entry).register .stream connection
                  (proxy.nextSessionId (.bound .stream) + 1) "" schemaChunk) :=
              .inl ⟨.findSession rawReadLimits use, active_bind⟩
            have hbound := execute_of_meets
              (fun native point proxy hreading => reading_step native hreading) hread h
              status rfl
            exact absurd (hreleased.1.symm.trans hbound) (some_ne_none _).symm
        · rintro ⟨native, message, hnative, herror⟩
          obtain rfl : start = native := some.inj hnative
          exact absurd (houtcome.symm.trans herror) (by simp)

theorem releasedSince_iff_of_prepared (hidle : proxy.Idle connection) {statementId : ℕ}
    {paramsJson : String} {use : ReadUse} (h : (Point.findSession .statement connection statementId
      (.runsStatement paramsJson (.reads use))).execute serde natives proxy =
        some (proxy', .error status)) :
    proxy.ReleasedSince connection proxy' ↔
      (∃ error, proxy.resolvePreparedSql serde connection statementId paramsJson = .error error) ∨
        StartFails natives 2 := by
  obtain ⟨-, entry, hentry, hbusy⟩ := id hidle
  have hunchanged : proxy.ReleasedSince connection proxy :=
    ⟨active_of_idle hentry hbusy, fun _ hmem => hmem⟩
  cases natives with
  | nil => cases h
  | cons find natives =>
    unfold Point.execute at h
    unfold DuckDBProxy.resolvePreparedSql
    cases hget : (proxy.sessions .statement).get? statementId with
    | none =>
      have hfind : (Point.findSession .statement connection statementId
          (.runsStatement paramsJson (.reads use))).step serde find proxy =
          (proxy, .returns (.error (SessionKind.unknown connection statementId false
            .statement))) := by
        unfold Point.step
        dsimp only
        rw [hget]
      rw [hfind] at h
      obtain ⟨rfl, -⟩ := Prod.mk.inj (some.inj h)
      exact iff_of_true hunchanged (.inl ⟨_, rfl⟩)
    | some statement =>
      have hfind : (Point.findSession .statement connection statementId
          (.runsStatement paramsJson (.reads use))).step serde find proxy =
          if statement.connection = connection then
            (proxy, SessionUse.next serde connection statementId statement
              (.runsStatement paramsJson (.reads use)))
          else (proxy, .returns (.error (SessionKind.unknown connection statementId true
            .statement))) := by
        unfold Point.step
        dsimp only
        rw [hget]
      rw [hfind] at h
      dsimp only
      split_ifs at h ⊢ with howner
      · cases hsql : substitutePreparedSql serde statement.text paramsJson with
        | error error =>
          unfold SessionUse.next at h
          dsimp only at h
          rw [hsql] at h
          obtain ⟨rfl, -⟩ := Prod.mk.inj (some.inj h)
          exact iff_of_true hunchanged (.inl ⟨error, rfl⟩)
        | ok sql =>
          unfold SessionUse.next at h
          dsimp only at h
          rw [hsql] at h
          rw [releasedSince_iff_of_start hidle h]
          exact (or_iff_right fun herror => absurd herror (by simp)).symm
      · obtain ⟨rfl, -⟩ := Prod.mk.inj (some.inj h)
        exact iff_of_true hunchanged (.inl ⟨_, rfl⟩)

/-- When one of the three operations returns an error, the connection is idle again exactly if the
statement was not resolved or the query was not started: not after a poll or a fetch that failed,
and not after a read that timed out. -/
theorem DuckDBProxy.queries_released_iff (serde : Serde) (natives : List NativeCall)
    (proxy : DuckDBProxy) (connection : ConnectionId) (hidle : DuckDBProxy.Idle proxy connection) :
    (∀ sql proxy' status,
      (Call.startPendingQuery connection sql).point.execute serde natives proxy =
        some (proxy', .error status) →
      (proxy.ReleasedSince connection proxy' ↔ StartFails natives 1)) ∧
    (∀ statementId paramsJson proxy' status,
      (Call.runPreparedStatement connection statementId paramsJson).point.execute serde natives
        proxy = some (proxy', .error status) →
      (proxy.ReleasedSince connection proxy' ↔
        (∃ error, proxy.resolvePreparedSql serde connection statementId paramsJson =
          .error error) ∨ StartFails natives 2)) ∧
    (∀ statementId paramsJson proxy' status,
      (Call.sendPreparedStatement connection statementId paramsJson).point.execute serde natives
        proxy = some (proxy', .error status) →
      (proxy.ReleasedSince connection proxy' ↔
        (∃ error, proxy.resolvePreparedSql serde connection statementId paramsJson =
          .error error) ∨ StartFails natives 2)) :=
  ⟨fun _ _ _ h => releasedSince_iff_of_start hidle h,
    fun _ _ _ _ h => releasedSince_iff_of_prepared hidle h,
    fun _ _ _ _ h => releasedSince_iff_of_prepared hidle h⟩

/-- A proxy with an idle connection. -/
def connectedProxy : DuckDBProxy :=
  (replay (ProxyWorld.step ProxyWorld.noJson) ProxyWorld.connected .initial).proxy

theorem idle_connectedProxy : connectedProxy.Idle ⟨1, 1⟩ := by
  refine ⟨⟨⟨2, [1]⟩, by decide +kernel, List.mem_singleton_self 1⟩, ⟨none, none⟩, ?_, rfl⟩
  decide +kernel

def interrupted : NativeCall where
  outcome := .error "interrupted"
  fetch := .error "interrupted"
  elapsed := 0

theorem released_iff_interrupted :
    ∃ proxy' status, (Call.startPendingQuery ⟨1, 1⟩ "SELECT 1").point.execute ProxyWorld.noJson
      [ProxyWorld.succeeds, interrupted] connectedProxy = some (proxy', .error status) ∧
        (connectedProxy.ReleasedSince ⟨1, 1⟩ proxy' ↔
          StartFails [ProxyWorld.succeeds, interrupted] 1) :=
  ⟨_, _, rfl, (DuckDBProxy.queries_released_iff _ _ _ _ idle_connectedProxy).1 _ _ _ rfl⟩

/-- The first poll of a query that was started fails, and the connection stays busy. -/
theorem bound_after_failed_poll :
    ∃ proxy' status, (Call.startPendingQuery ⟨1, 1⟩ "SELECT 1").point.execute ProxyWorld.noJson
      (List.replicate 5 ProxyWorld.succeeds ++ [interrupted]) connectedProxy =
        some (proxy', .error status) ∧ ¬ connectedProxy.ReleasedSince ⟨1, 1⟩ proxy' := by
  refine ⟨_, _, rfl, fun hreleased => ?_⟩
  exact absurd hreleased.1 (by decide +kernel)

end DashQL.Native
