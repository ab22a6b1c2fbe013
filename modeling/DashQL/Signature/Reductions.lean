import DashQL.Signature.Connections

/-!
# What the reducers do to a signature

A reducer keeps the signature of a connection, or it takes the entry of the old one out
of the shared map and adds a new one that is free (`Reduces`).  The hash of a connection
stays that of its details, except where the Salesforce connector starts its setup with
other parameters and where the dataless connector enters or leaves the demo mode
(`keepsSignature`).
-/

namespace DashQL.Signature

open List Option

open Candidates

variable {H : Hasher}

/-! ## Signature strings -/

theorem hexText_ne_nil (place : ℕ) : hexText place ≠ [] := by
  unfold hexText
  split <;> exact cons_ne_nil _ _

section

variable (place : ℕ → ℕ)

include place

theorem signatureText_succ (more : ℕ) :
    signatureText place (more + 1) =
      signatureText place more ++ hexText (place (SIGNATURE_DEFAULT_LENGTH + more)) := by
  unfold signatureText
  rw [← Nat.add_assoc, range_succ, flatMap_append, flatMap_singleton]

theorem signatureText_length_lt : StrictMono fun more => (signatureText place more).length := by
  refine strictMono_nat_of_lt_succ fun more => ?_
  rw [signatureText_succ, length_append]
  exact Nat.lt_add_of_pos_right (length_pos_iff.mpr (hexText_ne_nil _))

theorem signatureText_injective : Function.Injective (signatureText place) := by
  intro more more' h
  exact (signatureText_length_lt place).injective (congrArg List.length h)

theorem signatureText_ne_nil (more : ℕ) : signatureText place more ≠ [] := by
  have hlength : SIGNATURE_DEFAULT_LENGTH + more = 5 + more + 1 := by
    unfold SIGNATURE_DEFAULT_LENGTH
    omega
  unfold signatureText
  rw [hlength, range_succ, flatMap_append, flatMap_singleton]
  exact append_ne_nil_of_right_ne_nil _ (hexText_ne_nil _)

/-- The string that is found is new. -/
structure Fresh (sigs : ConnectionSignatureMap) (sig : Text) : Prop where
  free : sigs.get? sig = none
  ne_nil : sig ≠ []

theorem fresh_firstFree (sigs : ConnectionSignatureMap) :
    Fresh sigs (firstFree (signatureText place) sigs.keys sigs.keys.length 0) := by
  constructor
  · exact InsertionMap.get?_eq_none_iff.mpr (firstFree_not_mem (signatureText_injective place) 0)
  · obtain ⟨more, hmore⟩ :=
      exists_firstFree_eq (signatureText place) sigs.keys sigs.keys.length 0
    rw [hmore]
    exact signatureText_ne_nil place more

end

theorem newConnectionSignature_spec (seed : H.Hash) (sigs : ConnectionSignatureMap)
    (notebookId : Option Text) :
    ∃ sig, newConnectionSignature seed sigs notebookId = (⟨seed, sig⟩, sigs.set sig notebookId) ∧
      Fresh sigs sig :=
  ⟨_, rfl, fresh_firstFree (H.place seed) sigs⟩

theorem updateConnectionSignature_spec {prev : ConnectionSignatureState H}
    (hprev : prev.signatureString ≠ []) (next : H.Hash) (notebookId : Option Text)
    (sigs : ConnectionSignatureMap) :
    ∃ sig, updateConnectionSignature prev next notebookId sigs =
        (⟨next, sig⟩, (sigs.delete prev.signatureString).set sig notebookId) ∧
      Fresh (sigs.delete prev.signatureString) sig := by
  unfold updateConnectionSignature
  rw [if_pos hprev]
  exact ⟨_, rfl, fresh_firstFree (H.place next) _⟩

/-! ## Reductions -/

/-- What the reducer of a connector makes of a connection. -/
inductive Reduces (state : ConnectionState H) (notebookId : Text)
    (signatures : ConnectionSignatureMap) : ConnectionStateAction → Reduced H → Prop
  | kept {action : ConnectionStateAction} (connectionStatus : ConnectionStatus)
      (details : ConnectionStateDetails)
      (same : computeNewConnectionSignatureFromDetails H details =
        computeNewConnectionSignatureFromDetails H state.details) :
      Reduces state notebookId signatures action
        ({ state with connectionStatus, details }, signatures)
  | setup {action : ConnectionStateAction} (connectionStatus : ConnectionStatus)
      (details : ConnectionStateDetails) :
      Reduces state notebookId signatures action
        (startSetup state notebookId signatures connectionStatus details
          (computeNewConnectionSignatureFromDetails H details))
  | salesforce (setupParams params : SalesforceConnectionParams)
      (before : state.details = .salesforce setupParams) :
      Reduces state notebookId signatures (.setupStarted params)
        (startSetup state notebookId signatures .authStarted (.salesforce params)
          (computeSalesforceConnectionSignature setupParams H.new))
  | demo (setupParams : DatalessParams) (before : state.details = .dataless setupParams)
      (newDemoConnector : Bool) (connectionStatus : ConnectionStatus) :
      Reduces state notebookId signatures (.datalessSetDemoMode newDemoConnector)
        ({ state with
          connectorType := .dataless
          connectionStatus
          details := .dataless (demoParams newDemoConnector) }, signatures)

variable {state : ConnectionState H} {notebookId : Text} {signatures : ConnectionSignatureMap}
  {action : ConnectionStateAction} {reduced : Reduced H}

theorem reduces_self : Reduces state notebookId signatures action (state, signatures) :=
  .kept state.connectionStatus state.details rfl

theorem reduces_progress {status : Option ConnectionStatus}
    (h : reduceProgress state signatures status = some reduced) :
    Reduces state notebookId signatures action reduced := by
  obtain ⟨connectionStatus, -, rfl⟩ := map_eq_some_iff.mp h
  exact .kept connectionStatus state.details rfl

theorem reduces_details (h : reduceDetails state notebookId signatures action = some reduced) :
    Reduces state notebookId signatures action reduced := by
  unfold reduceDetails at h
  cases hdetails : state.details with
  | salesforce setupParams =>
    rw [hdetails] at h
    cases action with
    | deleteConnection => exact some.inj h ▸ reduces_self
    | resetConnection => exact some.inj h ▸ reduces_self
    | setupStarted params => exact some.inj h ▸ .salesforce setupParams params hdetails
    | receivedCoreUserInfo preferredUsername email =>
      refine some.inj h ▸ .kept state.connectionStatus _ ?_
      rw [hdetails]
      rfl
    | progress progress => exact reduces_progress h
    | _ => cases h
  | hyper setupParams =>
    rw [hdetails] at h
    cases action with
    | deleteConnection => exact some.inj h ▸ reduces_self
    | resetConnection => exact some.inj h ▸ reduces_self
    | hyperChannelSetupStarted params =>
      exact some.inj h ▸ .setup .channelSetupStarted (.hyper params)
    | progress progress => exact reduces_progress h
    | _ => cases h
  | trino setupParams =>
    rw [hdetails] at h
    cases action with
    | deleteConnection => exact some.inj h ▸ reduces_self
    | resetConnection => exact some.inj h ▸ reduces_self
    | oauthStarted params => exact some.inj h ▸ .setup .authStarted (.trino params)
    | trinoChannelSetupStarted params =>
      exact some.inj h ▸ .setup .channelSetupStarted (.trino params)
    | progress progress => exact reduces_progress h
    | _ => cases h
  | dataless setupParams =>
    rw [hdetails] at h
    cases action with
    | deleteConnection => exact some.inj h ▸ reduces_self
    | resetConnection => exact some.inj h ▸ reduces_self
    | datalessSetDemoMode newDemoConnector =>
      exact some.inj h ▸ .demo setupParams hdetails newDemoConnector _
    | progress progress => exact reduces_progress h
    | _ => cases h

/-- A connector that changes its parameters takes the signature of the details before, or keeps the
old one: the signatures of the details before and after are the same. -/
def keepsSignature (H : Hasher) : ConnectionStateDetails → ConnectionStateAction → Prop
  | .salesforce setupParams, .setupStarted params =>
    computeSalesforceConnectionSignature setupParams H.new =
      computeSalesforceConnectionSignature params H.new
  | .dataless setupParams, .datalessSetDemoMode newDemoConnector =>
    computeDatalessConnectionSignature setupParams H.new =
      computeDatalessConnectionSignature (H := H) (demoParams newDemoConnector) H.new
  | _, _ => True

def Computed (state : ConnectionState H) : Prop :=
  state.connectionSignature.hash = computeNewConnectionSignatureFromDetails H state.details

theorem Reduces.computed (h : Reduces state notebookId signatures action reduced)
    (hcomputed : Computed state) (hkeeps : keepsSignature H state.details action) :
    Computed reduced.1 := by
  cases h with
  | kept connectionStatus details same => exact hcomputed.trans same.symm
  | setup connectionStatus details => rfl
  | salesforce setupParams params before =>
    rw [before] at hkeeps
    exact hkeeps
  | demo setupParams before newDemoConnector connectionStatus =>
    unfold Computed at hcomputed
    rw [before] at hcomputed hkeeps
    exact hcomputed.trans hkeeps

/-- What a reducer does to the entry of a connection in the shared map. -/
theorem Reduces.entry (h : Reduces state notebookId signatures action reduced)
    (hnamed : state.connectionSignature.signatureString ≠ []) :
    (reduced.1.connectionSignature = state.connectionSignature ∧ reduced.2 = signatures) ∨
      Fresh (signatures.delete state.connectionSignature.signatureString)
          reduced.1.connectionSignature.signatureString ∧
        reduced.2 = (signatures.delete state.connectionSignature.signatureString).set
          reduced.1.connectionSignature.signatureString (some notebookId) := by
  have hsetup : ∀ (connectionStatus : ConnectionStatus) (details : ConnectionStateDetails)
      (hash : H.Hash),
      let started := startSetup state notebookId signatures connectionStatus details hash
      Fresh (signatures.delete state.connectionSignature.signatureString)
          started.1.connectionSignature.signatureString ∧
        started.2 = (signatures.delete state.connectionSignature.signatureString).set
          started.1.connectionSignature.signatureString (some notebookId) := by
    intro connectionStatus details hash
    obtain ⟨sig, hupdate, hfresh⟩ :=
      updateConnectionSignature_spec hnamed hash (some notebookId) signatures
    unfold startSetup
    rw [hupdate]
    exact ⟨hfresh, rfl⟩
  cases h with
  | kept connectionStatus details same => exact .inl ⟨rfl, rfl⟩
  | setup connectionStatus details => exact .inr (hsetup connectionStatus details _)
  | salesforce setupParams params before => exact .inr (hsetup .authStarted (.salesforce params) _)
  | demo setupParams before newDemoConnector connectionStatus => exact .inl ⟨rfl, rfl⟩

/-! ## All actions -/

theorem reduceDetails_delete :
    reduceDetails state notebookId signatures .deleteConnection = some (state, signatures) := by
  unfold reduceDetails
  cases state.details <;> rfl

theorem reduceDetails_reset :
    reduceDetails state notebookId signatures .resetConnection = some (state, signatures) := by
  unfold reduceDetails
  cases state.details <;> rfl

theorem reduceConnectionState_delete :
    reduceConnectionState state notebookId signatures .deleteConnection =
      some (state, signatures) := by
  unfold reduceConnectionState
  dsimp only
  rw [reduceDetails_delete]
  rfl

theorem reduces_connection (hswitch : ∀ newType, action ≠ .switchConnectorType newType)
    (h : reduceConnectionState state notebookId signatures action = some reduced) :
    Reduces state notebookId signatures action reduced := by
  cases action with
  | other => exact some.inj h ▸ reduces_self
  | resetConnection =>
    unfold reduceConnectionState at h
    dsimp only at h
    rw [reduceDetails_reset] at h
    exact some.inj h ▸ .kept .notStarted state.details rfl
  | switchConnectorType newType => exact (hswitch newType rfl).elim
  | deleteConnection =>
    rw [reduceConnectionState_delete] at h
    exact some.inj h ▸ reduces_self
  | _ => exact reduces_details h

/-- A switch to another connector gives the connection a second entry in the shared map. -/
theorem switchConnectorType_cases (state : ConnectionState H) (notebookId : Text)
    (signatures : ConnectionSignatureMap) (newType : ConnectorType) :
    switchConnectorType state notebookId signatures newType = (state, signatures) ∨
      ∃ next sig, switchConnectorType state notebookId signatures newType =
          (next, signatures.set sig (some notebookId)) ∧
        next.connectionSignature.signatureString = sig ∧ Fresh signatures sig ∧
        next.connectorType ≠ state.connectorType ∧ Computed next := by
  unfold switchConnectorType
  split_ifs with hstarted hsame
  · exact .inl rfl
  · exact .inl rfl
  · obtain ⟨sig, hcreate, hfresh⟩ := newConnectionSignature_spec
      (computeNewConnectionSignatureFromDetails H (createConnectionStateDetails newType)) signatures
      (some notebookId)
    dsimp only
    rw [hcreate]
    exact .inr ⟨_, sig, rfl, rfl, hfresh, fun heq => hsame heq.symm, rfl⟩

end DashQL.Signature
