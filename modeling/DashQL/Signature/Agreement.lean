import DashQL.Library.Indexing
import DashQL.Signature.Reductions

/-!
# Signatures and the registry

The shared map is an index of the connections that are registered or were created
(`Connections.Agreeing`), in every run.  The hashes of the connections are those of
their details in the runs whose setups and changes of the demo mode keep the signature
(`sound_of_run`).
-/

namespace DashQL.Signature

open Function Option
open InsertionMap (get?_delete get?_eq_none_iff get?_set get?_set_eq_update)

variable {H : Hasher}

/-! ## Actions on the registry -/

namespace ConnectionRegistry

/-- What an action does to a connection that is registered, and to its entry. -/
inductive Applied (reg : ConnectionRegistry H) (notebookId : Text) (prev : ConnectionState H) :
    ConnectionStateAction → ConnectionRegistry H → Prop
  | deleted (connectionsByType : ConnectorType → List Text) :
      Applied reg notebookId prev .deleteConnection
        ⟨reg.connectionMap.delete notebookId, connectionsByType,
          reg.connectionsBySignature.delete prev.connectionSignature.signatureString⟩
  | switched (newType : ConnectorType) (next : ConnectionState H)
      (connectionsByType : ConnectorType → List Text)
      (fresh : Fresh reg.connectionsBySignature next.connectionSignature.signatureString)
      (computed : Computed next) :
      Applied reg notebookId prev (.switchConnectorType newType)
        ⟨reg.connectionMap.set notebookId next, connectionsByType,
          ((reg.connectionsBySignature.set next.connectionSignature.signatureString
            (some notebookId)).delete prev.connectionSignature.signatureString).set
              next.connectionSignature.signatureString (some notebookId)⟩
  | reduced {action : ConnectionStateAction} (next : ConnectionState H)
      (signatures : ConnectionSignatureMap)
      (reduces : Reduces prev notebookId reg.connectionsBySignature action (next, signatures)) :
      Applied reg notebookId prev action
        ⟨reg.connectionMap.set notebookId next, reg.connectionsByType, signatures⟩

variable {reg reg' : ConnectionRegistry H} {notebookId : Text} {prev : ConnectionState H}
  {action : ConnectionStateAction}

theorem applied_of_applyAction (hprev : reg.connectionMap.get? notebookId = some prev)
    (h : reg.applyAction notebookId action = some reg') :
    reg.Applied notebookId prev action reg' := by
  unfold applyAction at h
  rw [hprev] at h
  obtain ⟨reduced, hreduce, heq⟩ := map_eq_some_iff.mp h
  obtain ⟨next, signatures⟩ := reduced
  have hkept : (∀ newType, action ≠ .switchConnectorType newType) →
      reg.Applied notebookId prev action
        ⟨reg.connectionMap.set notebookId next, reg.connectionsByType, signatures⟩ :=
    fun hswitch => .reduced next signatures (reduces_connection hswitch hreduce)
  cases action with
  | deleteConnection =>
    rw [reduceConnectionState_delete] at hreduce
    obtain ⟨rfl, rfl⟩ := Prod.mk.inj (some.inj hreduce)
    exact heq ▸ .deleted _
  | switchConnectorType newType =>
    dsimp only at heq
    have hswitch : switchConnectorType prev notebookId reg.connectionsBySignature newType =
        (next, signatures) := some.inj hreduce
    rcases switchConnectorType_cases prev notebookId reg.connectionsBySignature newType with
      hsame | ⟨next', sig, hnext, rfl, hfresh, htype, hcomputed⟩
    · obtain ⟨rfl, rfl⟩ := Prod.mk.inj (hsame.symm.trans hswitch)
      rw [if_neg (not_not_intro rfl)] at heq
      exact heq ▸ .reduced prev reg.connectionsBySignature reduces_self
    · obtain ⟨rfl, rfl⟩ := Prod.mk.inj (hnext.symm.trans hswitch)
      rw [if_pos htype] at heq
      exact heq ▸ .switched newType next' _ hfresh hcomputed
  | _ => exact heq ▸ hkept fun newType h => by cases h

end ConnectionRegistry

namespace Connections

open ConnectionRegistry

variable {c c' : Connections H} {condition : Connections H → Step H → Prop}

/-! ## The map as an index -/

/-- The signature of a connection, with what the map has for it: the id of a connection that is
registered. -/
def holder (c : Connections H) (notebookId : Text) : Option (Text × Option Text) :=
  match c.registry.connectionMap.get? notebookId with
  | some conn => some (conn.connectionSignature.signatureString, some notebookId)
  | none => (c.created.get? notebookId).map fun conn =>
    (conn.connectionSignature.signatureString, none)

structure Agreeing (c : Connections H) : Prop where
  indexed : Indexed c.holder c.registry.connectionsBySignature.get?
  named : ∀ notebookId sig owner, c.holder notebookId = some (sig, owner) → sig ≠ []
  apart : ∀ notebookId, c.created.get? notebookId ≠ none →
    c.registry.connectionMap.get? notebookId = none

theorem holder_of_registered {notebookId : Text} {conn : ConnectionState H}
    (h : c.registry.connectionMap.get? notebookId = some conn) :
    c.holder notebookId = some (conn.connectionSignature.signatureString, some notebookId) := by
  unfold holder
  rw [h]

theorem holder_of_created {notebookId : Text} {conn : ConnectionState H}
    (h : c.created.get? notebookId = some conn)
    (hnone : c.registry.connectionMap.get? notebookId = none) :
    c.holder notebookId = some (conn.connectionSignature.signatureString, none) := by
  unfold holder
  rw [hnone, h]
  rfl

theorem get?_delete_eq_update {κ α : Type*} [DecidableEq κ] (m : InsertionMap κ α) (key : κ) :
    (m.delete key).get? = Function.update m.get? key none := by
  funext probe
  rw [get?_delete, update_apply]

/-- A registered connection is replaced, with its entry in the map. -/
theorem Agreeing.replace (h : Agreeing c) {notebookId : Text} {prev next : ConnectionState H}
    {connectionsByType : ConnectorType → List Text} {signatures : ConnectionSignatureMap}
    (hprev : c.registry.connectionMap.get? notebookId = some prev) (hfresh : Fresh
      (c.registry.connectionsBySignature.delete prev.connectionSignature.signatureString)
      next.connectionSignature.signatureString)
    (hsignatures : signatures.get? = ((c.registry.connectionsBySignature.delete
      prev.connectionSignature.signatureString).set
        next.connectionSignature.signatureString (some notebookId)).get?) :
    Agreeing { c with registry :=
      ⟨c.registry.connectionMap.set notebookId next, connectionsByType, signatures⟩ } := by
  have hheld := holder_of_registered hprev
  have hholder : holder { c with registry :=
      ⟨c.registry.connectionMap.set notebookId next, connectionsByType, signatures⟩ } =
      Function.update c.holder notebookId
        (some (next.connectionSignature.signatureString, some notebookId)) := by
    funext probe
    unfold holder
    dsimp only
    rw [update_apply, get?_set]
    split_ifs with hprobe
    · rw [hprobe]
    · rfl
  refine ⟨?_, ?_, ?_⟩
  · dsimp only
    rw [hholder, hsignatures, get?_set_eq_update, get?_delete_eq_update]
    refine h.indexed.rename hheld ?_
    rw [← get?_delete_eq_update]
    exact hfresh.free
  · intro probe sig owner hsig
    rw [hholder, update_apply] at hsig
    split_ifs at hsig
    · obtain ⟨rfl, -⟩ := Prod.mk.inj (some.inj hsig)
      exact hfresh.ne_nil
    · exact h.named probe sig owner hsig
  · intro probe hcreated
    dsimp only
    rw [get?_set, if_neg]
    · exact h.apart probe hcreated
    · rintro rfl
      rw [h.apart probe hcreated] at hprev
      cases hprev

theorem Agreeing.apply (h : Agreeing c) {notebookId : Text} {prev : ConnectionState H}
    {action : ConnectionStateAction} {reg : ConnectionRegistry H}
    (hprev : c.registry.connectionMap.get? notebookId = some prev)
    (happlied : c.registry.Applied notebookId prev action reg) :
    Agreeing { c with registry := reg } := by
  have hheld := holder_of_registered hprev
  cases happlied with
  | deleted connectionsByType =>
    have hcreated : c.created.get? notebookId = none := by
      by_contra hsome
      rw [h.apart notebookId hsome] at hprev
      cases hprev
    have hholder : holder { c with registry :=
        ⟨c.registry.connectionMap.delete notebookId, connectionsByType,
          c.registry.connectionsBySignature.delete prev.connectionSignature.signatureString⟩ } =
        Function.update c.holder notebookId none := by
      funext probe
      unfold holder
      dsimp only
      rw [update_apply, get?_delete]
      split_ifs with hprobe
      · rw [hprobe, hcreated]
        rfl
      · rfl
    refine ⟨?_, ?_, ?_⟩
    · dsimp only
      rw [hholder, get?_delete_eq_update]
      exact h.indexed.remove hheld
    · intro probe sig owner hsig
      rw [hholder, update_apply] at hsig
      split_ifs at hsig
      exact h.named probe sig owner hsig
    · intro probe hmem
      dsimp only
      rw [get?_delete]
      split_ifs
      · rfl
      · exact h.apart probe hmem
  | switched newType next connectionsByType fresh computed =>
    refine h.replace hprev ⟨?_, fresh.ne_nil⟩ ?_
    · rw [get?_delete, fresh.free, ite_self]
    · funext probe
      rw [get?_set, get?_set, get?_delete, get?_delete, get?_set]
      split_ifs <;> rfl
  | reduced next signatures reduces =>
    rcases reduces.entry (h.named notebookId _ _ hheld) with ⟨hsame, hmap⟩ | ⟨hfresh, hmap⟩
    · have hentry := (h.indexed.index_iff _ _).mpr ⟨notebookId, hheld⟩
      dsimp only at hsame hmap
      refine h.replace hprev ⟨?_, ?_⟩ ?_
      · rw [hsame, get?_delete, if_pos rfl]
      · rw [hsame]
        exact h.named notebookId _ _ hheld
      · funext probe
        rw [hsame, hmap, get?_set, get?_delete]
        split_ifs with hprobe
        · rw [hprobe, hentry]
        · rfl
    · exact h.replace hprev hfresh (by rw [← hmap])

theorem Agreeing.create (h : Agreeing c) {notebookId : Text}
    (hnew : ¬ (notebookId ∈ c.registry.connectionMap.keys ∨ notebookId ∈ c.created.keys))
    (details : ConnectionStateDetails) (connectionStatus : ConnectionStatus) :
    Agreeing (c.create notebookId details connectionStatus) := by
  rw [not_or, ← get?_eq_none_iff, ← get?_eq_none_iff] at hnew
  obtain ⟨sig, hsig, hfresh⟩ := newConnectionSignature_spec
    (computeNewConnectionSignatureFromDetails H details) c.registry.connectionsBySignature none
  have hcreate : c.create notebookId details connectionStatus =
      { registry := { c.registry with
          connectionsBySignature := c.registry.connectionsBySignature.set sig none }
        created := c.created.set notebookId ⟨connectionStatus, details.connectorType,
          ⟨computeNewConnectionSignatureFromDetails H details, sig⟩, details⟩ } := by
    unfold Connections.create
    dsimp only
    rw [hsig]
  have hholder : (c.create notebookId details connectionStatus).holder =
      Function.update c.holder notebookId (some (sig, none)) := by
    rw [hcreate]
    funext probe
    unfold holder
    dsimp only
    rw [update_apply, get?_set]
    split_ifs with hprobe
    · rw [hprobe, hnew.1]
      rfl
    · rfl
  have hheld : c.holder notebookId = none := by
    unfold holder
    rw [hnew.1, hnew.2]
    rfl
  refine ⟨?_, ?_, ?_⟩
  · rw [hholder, hcreate]
    dsimp only
    rw [get?_set_eq_update]
    exact h.indexed.insert hheld hfresh.free
  · intro probe name owner hname
    rw [hholder, update_apply] at hname
    split_ifs at hname
    · obtain ⟨rfl, -⟩ := Prod.mk.inj (some.inj hname)
      exact hfresh.ne_nil
    · exact h.named probe name owner hname
  · intro probe hcreated
    rw [hcreate] at hcreated ⊢
    dsimp only at hcreated ⊢
    rw [get?_set] at hcreated
    split_ifs at hcreated with hprobe
    · rw [hprobe]
      exact hnew.1
    · exact h.apart probe hcreated

theorem Agreeing.register (h : Agreeing c) {notebookId : Text}
    (stepped : c.register notebookId = some c') : Agreeing c' := by
  obtain ⟨conn, hconn, rfl⟩ := map_eq_some_iff.mp stepped
  have hnone := h.apart notebookId (by rw [hconn]; exact some_ne_none _)
  have hheld := holder_of_created hconn hnone
  have hname := h.named notebookId _ _ hheld
  have hholder : holder
      ⟨⟨c.registry.connectionMap.set notebookId conn,
          withType conn.connectorType (· ++ [notebookId]) c.registry.connectionsByType,
          c.registry.connectionsBySignature.set conn.connectionSignature.signatureString
            (some notebookId)⟩,
        c.created.delete notebookId⟩ = Function.update c.holder notebookId
          (some (conn.connectionSignature.signatureString, some notebookId)) := by
    funext probe
    unfold holder
    dsimp only
    rw [update_apply, get?_set, get?_delete]
    split_ifs with hprobe
    · rw [hprobe]
    · rfl
  refine ⟨?_, ?_, ?_⟩
  · rw [hholder]
    dsimp only
    have hrenamed := @Indexed.rename _ _ _ _ _ _ _ notebookId
      conn.connectionSignature.signatureString conn.connectionSignature.signatureString none
      (some notebookId) h.indexed hheld (by rw [update_self])
    rw [update_idem] at hrenamed
    rw [get?_set_eq_update]
    exact hrenamed
  · intro probe name owner hsig
    rw [hholder, update_apply] at hsig
    split_ifs at hsig
    · obtain ⟨rfl, -⟩ := Prod.mk.inj (some.inj hsig)
      exact hname
    · exact h.named probe name owner hsig
  · intro probe hcreated
    dsimp only at hcreated ⊢
    rw [get?_delete] at hcreated
    split_ifs at hcreated with hprobe
    · exact (hcreated rfl).elim
    · rw [get?_set, if_neg hprobe]
      exact h.apart probe hcreated

theorem Agreeing.step (h : Agreeing c) {s : Step H} (stepped : c.step s = some c') :
    Agreeing c' := by
  cases s with
  | create notebookId details status =>
    unfold Connections.step at stepped
    dsimp only at stepped
    split_ifs at stepped with hnew
    exact some.inj stepped ▸ h.create hnew details status
  | register notebookId => exact h.register stepped
  | apply notebookId action =>
    obtain ⟨reg, happly, rfl⟩ := map_eq_some_iff.mp stepped
    cases hprev : c.registry.connectionMap.get? notebookId with
    | none =>
      unfold applyAction at happly
      rw [hprev] at happly
      obtain rfl := some.inj happly
      exact h
    | some prev => exact h.apply hprev (applied_of_applyAction hprev happly)

/-- In every run the map is the index of the connections. -/
theorem agreeing_of_run (run : Run condition c) : Agreeing c := by
  induction run with
  | start =>
    refine ⟨Indexed.empty, (fun _ _ _ h => by cases h), fun _ h => (h rfl).elim⟩
  | step s _ _ stepped ih => exact ih.step stepped

/-! ## The hashes -/

/-- A setup or a change of the demo mode that is applied keeps the signature that the details
have. -/
def KeepsSignature (c : Connections H) : Step H → Prop
  | .apply notebookId action => ∀ prev, c.registry.connectionMap.get? notebookId = some prev →
      keepsSignature H prev.details action
  | _ => True

structure Hashed (c : Connections H) : Prop where
  registered : ∀ notebookId conn, c.registry.connectionMap.get? notebookId = some conn →
    Computed conn
  created : ∀ notebookId conn, c.created.get? notebookId = some conn → Computed conn

theorem get?_of_applied {reg reg' : ConnectionRegistry H} {notebookId probe : Text}
    {prev : ConnectionState H} {action : ConnectionStateAction}
    (happlied : reg.Applied notebookId prev action reg') (hprobe : probe ≠ notebookId) :
    reg'.connectionMap.get? probe = reg.connectionMap.get? probe := by
  cases happlied with
  | deleted connectionsByType => rw [get?_delete, if_neg hprobe]
  | switched newType next connectionsByType fresh computed =>
    rw [get?_set, if_neg hprobe]
  | reduced next signatures reduces => rw [get?_set, if_neg hprobe]

theorem computed_of_applied {reg reg' : ConnectionRegistry H} {notebookId : Text}
    {prev next : ConnectionState H} {action : ConnectionStateAction}
    (happlied : reg.Applied notebookId prev action reg') (hcomputed : Computed prev)
    (hkeeps : keepsSignature H prev.details action)
    (hnext : reg'.connectionMap.get? notebookId = some next) : Computed next := by
  cases happlied with
  | deleted connectionsByType =>
    rw [get?_delete, if_pos rfl] at hnext
    cases hnext
  | switched newType switched connectionsByType fresh computed =>
    rw [get?_set, if_pos rfl] at hnext
    exact some.inj hnext ▸ computed
  | reduced reduced signatures reduces =>
    rw [get?_set, if_pos rfl] at hnext
    exact some.inj hnext ▸ reduces.computed hcomputed hkeeps

theorem Hashed.step (h : Hashed c) {s : Step H} (hkeeps : c.KeepsSignature s)
    (stepped : c.step s = some c') : Hashed c' := by
  cases s with
  | create notebookId details status =>
    unfold Connections.step at stepped
    dsimp only at stepped
    split_ifs at stepped with hnew
    obtain rfl := some.inj stepped
    refine ⟨h.registered, fun probe conn hconn => ?_⟩
    unfold Connections.create at hconn
    dsimp only at hconn
    rw [get?_set] at hconn
    split_ifs at hconn
    · exact some.inj hconn ▸ rfl
    · exact h.created probe conn hconn
  | register notebookId =>
    obtain ⟨conn, hconn, rfl⟩ := map_eq_some_iff.mp stepped
    refine ⟨fun probe conn' hget => ?_, fun probe conn' hget => ?_⟩
    · rw [get?_set] at hget
      split_ifs at hget
      · exact some.inj hget ▸ h.created notebookId conn hconn
      · exact h.registered probe conn' hget
    · rw [get?_delete] at hget
      split_ifs at hget
      exact h.created probe conn' hget
  | apply notebookId action =>
    obtain ⟨reg, happly, rfl⟩ := map_eq_some_iff.mp stepped
    refine ⟨fun probe conn hget => ?_, h.created⟩
    cases hprev : c.registry.connectionMap.get? notebookId with
    | none =>
      unfold applyAction at happly
      rw [hprev] at happly
      obtain rfl := some.inj happly
      exact h.registered probe conn hget
    | some prev =>
      have happlied := applied_of_applyAction hprev happly
      by_cases hprobe : probe = notebookId
      · subst hprobe
        exact computed_of_applied happlied (h.registered probe prev hprev) (hkeeps prev hprev) hget
      · rw [get?_of_applied happlied hprobe] at hget
        exact h.registered probe conn hget

/-- What the details and the map have to say about the connections: every registered connection has
the hash of its details and the entry of its signature string, no two of them have the same string,
and every other entry is that of a connection which was created and is not registered yet. -/
structure Sound (c : Connections H) : Prop where
  computed : ∀ notebookId conn, c.registry.connectionMap.get? notebookId = some conn →
    Computed conn
  mapped : ∀ notebookId conn, c.registry.connectionMap.get? notebookId = some conn →
    c.registry.connectionsBySignature.get? conn.connectionSignature.signatureString =
      some (some notebookId)
  distinct : ∀ notebookId conn notebookId' conn',
    c.registry.connectionMap.get? notebookId = some conn →
    c.registry.connectionMap.get? notebookId' = some conn' →
    conn.connectionSignature.signatureString = conn'.connectionSignature.signatureString →
    notebookId = notebookId'
  live : ∀ sig owner, c.registry.connectionsBySignature.get? sig = some owner →
    ∃ notebookId conn, conn.connectionSignature.signatureString = sig ∧
      (c.registry.connectionMap.get? notebookId = some conn ∧ owner = some notebookId ∨
        c.created.get? notebookId = some conn ∧ owner = none)

theorem Agreeing.sound (h : Agreeing c) (hhashed : Hashed c) : Sound c := by
  have hmapped : ∀ notebookId conn, c.registry.connectionMap.get? notebookId = some conn →
      c.registry.connectionsBySignature.get? conn.connectionSignature.signatureString =
        some (some notebookId) := fun notebookId conn hconn =>
    (h.indexed.index_iff _ _).mpr ⟨notebookId, holder_of_registered hconn⟩
  refine ⟨hhashed.registered, hmapped, ?_, fun sig owner hentry => ?_⟩
  · intro notebookId conn notebookId' conn' hconn hconn' hsame
    have hentry := hmapped notebookId' conn' hconn'
    rw [← hsame, hmapped notebookId conn hconn] at hentry
    exact some.inj (some.inj hentry)
  · obtain ⟨notebookId, hheld⟩ := (h.indexed.index_iff sig owner).mp hentry
    unfold holder at hheld
    cases hconn : c.registry.connectionMap.get? notebookId with
    | some conn =>
      rw [hconn] at hheld
      obtain ⟨hsig, howner⟩ := Prod.mk.inj (some.inj hheld)
      exact ⟨notebookId, conn, hsig, .inl ⟨hconn, howner.symm⟩⟩
    | none =>
      rw [hconn] at hheld
      obtain ⟨conn, hcreated, heq⟩ := map_eq_some_iff.mp hheld
      obtain ⟨hsig, howner⟩ := Prod.mk.inj heq
      exact ⟨notebookId, conn, hsig, .inr ⟨hcreated, howner.symm⟩⟩

theorem hashed_of_run (run : Run KeepsSignature c) : Hashed c := by
  induction run with
  | start => exact ⟨(fun _ _ h => by cases h), (fun _ _ h => by cases h)⟩
  | step s _ met stepped ih => exact ih.step met stepped

theorem sound_of_run (run : Run KeepsSignature c) : Sound c :=
  (agreeing_of_run run).sound (hashed_of_run run)

/-- A step that can come is taken. -/
theorem Run.next (run : Run condition c) (s : Step H) (met : condition c s)
    (stepped : (c.step s).isSome) : Run condition ((c.step s).get stepped) :=
  .step s run met (some_get stepped).symm

/-- A setup of the Salesforce connector with the parameters that it has, and a switch to Trino. -/
theorem sound_of_run_switch : ∃ c : Connections DefaultHasher,
    [Step.create "a".toList (.salesforce ⟨"x".toList, [], []⟩) .notStarted, .register "a".toList,
      .apply "a".toList (.setupStarted ⟨"x".toList, [], "l".toList⟩),
      .apply "a".toList .resetConnection,
      .apply "a".toList (.switchConnectorType .trino)].foldlM step ⟨.empty, .empty⟩ = some c ∧
    Sound c := by
  have hcreated := (@Run.start DefaultHasher KeepsSignature).next
    (.create "a".toList (.salesforce ⟨"x".toList, [], []⟩) .notStarted) trivial rfl
  have hregistered := hcreated.next (.register "a".toList) trivial rfl
  have hsetup := hregistered.next (.apply "a".toList (.setupStarted ⟨"x".toList, [], "l".toList⟩))
    (fun prev hprev => some.inj hprev ▸ rfl) rfl
  have hreset := hsetup.next (.apply "a".toList .resetConnection)
    (fun prev hprev => some.inj hprev ▸ trivial) rfl
  exact ⟨_, rfl, sound_of_run (hreset.next (.apply "a".toList (.switchConnectorType .trino))
    (fun prev hprev => some.inj hprev ▸ trivial) rfl)⟩

/-- After a setup of the Salesforce connector with another instance the hash is still that of the
empty instance. -/
theorem not_sound_setupStarted : ∃ c : Connections DefaultHasher,
    [Step.create "a".toList (.salesforce ⟨[], [], []⟩) .notStarted, .register "a".toList,
      .apply "a".toList (.setupStarted ⟨"x".toList, [], []⟩)].foldlM step ⟨.empty, .empty⟩ =
        some c ∧
    Run (fun _ _ => True) c ∧ ¬ Sound c := by
  have hcreated := (@Run.start DefaultHasher fun _ _ => True).next
    (.create "a".toList (.salesforce ⟨[], [], []⟩) .notStarted) trivial rfl
  have hregistered := hcreated.next (.register "a".toList) trivial rfl
  have hsetup := hregistered.next (.apply "a".toList (.setupStarted ⟨"x".toList, [], []⟩))
    trivial rfl
  refine ⟨_, rfl, hsetup, fun hsound => ?_⟩
  have hcomputed := hsound.computed "a".toList _ rfl
  have hdifferent : computeNewConnectionSignatureFromDetails DefaultHasher
      (.salesforce ⟨[], [], []⟩) ≠ computeNewConnectionSignatureFromDetails DefaultHasher
        (.salesforce ⟨"x".toList, [], []⟩) := by decide +kernel
  exact hdifferent hcomputed

/-! ## Flushes -/

end Connections

end DashQL.Signature
