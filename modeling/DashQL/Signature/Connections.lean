import DashQL.Library.Candidates
import DashQL.Library.InsertionMap
import DashQL.Signature.Hashing

/-!
# Connections and their signatures

The connection reducers, with the fields that a signature or the change of a connector
reads: the parameters in the details, the status and the type of the connector.  All
connections share one map of signature strings, which the reducers change in place.

The actions that change the parameters have constructors of their own.  Of the other
actions of a connector the status that they set is kept (`ConnectorProgress`).
-/

namespace DashQL.Signature

open Candidates

abbrev ConnectionSignatureMap := InsertionMap Text (Option Text)

/-- `ConnectionSignatureState`, but for the shared map. -/
structure ConnectionSignatureState (H : Hasher) where
  hash : H.Hash
  signatureString : Text

/-! ## Signature strings -/

def hexText (place : ℕ) : Text :=
  match ("0123456789abcdef".toList)[place]? with
  | some digit => [digit]
  | none => "undefined".toList

def SIGNATURE_DEFAULT_LENGTH : ℕ := 6

/-- The default length and so many characters more. -/
def signatureText (place : ℕ → ℕ) (more : ℕ) : Text :=
  (List.range (SIGNATURE_DEFAULT_LENGTH + more)).flatMap fun call => hexText (place call)

variable {H : Hasher}

def updateConnectionSignature (prev : ConnectionSignatureState H) (next : H.Hash)
    (notebookId : Option Text) (signatures : ConnectionSignatureMap) :
    ConnectionSignatureState H × ConnectionSignatureMap :=
  let signatures :=
    if prev.signatureString ≠ [] then signatures.delete prev.signatureString else signatures
  let sig := firstFree (signatureText (H.place next)) signatures.keys signatures.keys.length 0
  (⟨next, sig⟩, signatures.set sig notebookId)

def newConnectionSignature (seed : H.Hash) (sigs : ConnectionSignatureMap)
    (notebookId : Option Text) : ConnectionSignatureState H × ConnectionSignatureMap :=
  updateConnectionSignature ⟨seed, []⟩ seed notebookId sigs

/-! ## Details -/

inductive ConnectorType
  | dataless
  | hyper
  | salesforceDataCloud
  | trino
  deriving DecidableEq

structure SalesforceConnectionParams where
  instanceUrl : Text
  appConsumerKey : Text
  login : Text

structure HyperConnectionParams where
  endpoint : Text

structure TrinoConnectionParams where
  endpoint : Text
  catalogName : Text
  schemaNames : Option (List Text)

structure DatalessParams where
  demoConnector : Option Bool

/-- `ConnectionStateDetailsVariant`, with the `setupParams` of the details. -/
inductive ConnectionStateDetails
  | salesforce (setupParams : SalesforceConnectionParams)
  | hyper (setupParams : HyperConnectionParams)
  | trino (setupParams : TrinoConnectionParams)
  | dataless (setupParams : DatalessParams)

def createConnectionStateDetails : ConnectorType → ConnectionStateDetails
  | .trino => .trino ⟨[], [], none⟩
  | .hyper => .hyper ⟨[]⟩
  | .salesforceDataCloud => .salesforce ⟨[], [], []⟩
  | .dataless => .dataless ⟨none⟩

/-- The type of the connector information that belongs to the details. -/
def ConnectionStateDetails.connectorType : ConnectionStateDetails → ConnectorType
  | .salesforce _ => .salesforceDataCloud
  | .hyper _ => .hyper
  | .trino _ => .trino
  | .dataless _ => .dataless

def isDemoConnector (setupParams : DatalessParams) : Bool := setupParams.demoConnector = some true

def computeSalesforceConnectionSignature (setupParams : SalesforceConnectionParams)
    (hasher : H.Hash) : H.Hash :=
  let hasher := H.add hasher "salesforce".toList
  let hasher := H.add hasher setupParams.instanceUrl
  H.add hasher setupParams.appConsumerKey

def computeHyperConnectionSignature (setupParams : HyperConnectionParams) (hasher : H.Hash) :
    H.Hash :=
  let hasher := H.add hasher "hyper-grpc".toList
  H.add hasher setupParams.endpoint

def computeTrinoConnectionSignature (setupParams : TrinoConnectionParams) (hasher : H.Hash) :
    H.Hash :=
  let hasher := H.add hasher "trino".toList
  let hasher := H.add hasher setupParams.endpoint
  let hasher := H.add hasher setupParams.catalogName
  H.add hasher ((setupParams.schemaNames.getD []).intersperse [',']).flatten

def computeDatalessConnectionSignature (setupParams : DatalessParams) (hasher : H.Hash) : H.Hash :=
  let hasher := H.add hasher "dataless".toList
  if isDemoConnector setupParams then H.add hasher "demo".toList else hasher

def computeConnectionSignatureFromDetails : ConnectionStateDetails → H.Hash → H.Hash
  | .trino setupParams => computeTrinoConnectionSignature setupParams
  | .hyper setupParams => computeHyperConnectionSignature setupParams
  | .salesforce setupParams => computeSalesforceConnectionSignature setupParams
  | .dataless setupParams => computeDatalessConnectionSignature setupParams

def computeNewConnectionSignatureFromDetails (H : Hasher) (details : ConnectionStateDetails) :
    H.Hash :=
  computeConnectionSignatureFromDetails details H.new

/-! ## Connections -/

inductive ConnectionStatus
  | notStarted
  | healthCheckStarted
  | healthCheckFailed
  | healthCheckCancelled
  | healthCheckSucceeded
  | channelSetupStarted
  | channelSetupFailed
  | channelSetupCancelled
  | channelReady
  | authStarted
  | authCancelled
  | authFailed
  | pkceGenerationStarted
  | pkceGenerated
  | waitingForOauthCodeViaWindow
  | waitingForOauthCodeViaLink
  | oauthCodeReceived
  | accessTokenRequested
  | accessTokenReceived
  | dataCloudTokenRequested
  | dataCloudTokenReceived
  | coreAccessTokenRequested
  | coreAccessTokenReceived
  deriving DecidableEq

structure ConnectionState (H : Hasher) where
  connectionStatus : ConnectionStatus
  connectorType : ConnectorType
  connectionSignature : ConnectionSignatureState H
  details : ConnectionStateDetails

/-- The actions of a connector that set a status, or none, and leave the parameters as they are.
An action that several connectors take is listed once for each of them. -/
inductive ConnectorProgress
  | salesforceSetupCancelled
  | salesforceSetupFailed
  | salesforceGeneratingPkceChallenge
  | salesforceGeneratedPkceChallenge
  | salesforceOauthNativeLinkOpened
  | salesforceOauthWebWindowOpened
  | salesforceOauthWebWindowClosed
  | salesforceReceivedCoreAuthCode
  | salesforceRequestingCoreAuthToken
  | salesforceReceivedCoreAuthToken
  | salesforceRequestingDataCloudAccessToken
  | salesforceReceivedDataCloudAccessToken
  | salesforceChannelSetupStarted
  | salesforceChannelSetupCancelled
  | salesforceChannelSetupFailed
  | salesforceChannelReady
  | hyperChannelSetupCancelled
  | hyperChannelSetupFailed
  | hyperChannelReady
  | trinoOauthCancelled
  | trinoOauthFailed
  | trinoGeneratingPkceChallenge
  | trinoGeneratedPkceChallenge
  | trinoOauthBrowserOpened
  | trinoReceivedOauthCode
  | trinoRequestingAccessToken
  | trinoReceivedAccessToken
  | trinoChannelSetupCancelled
  | trinoChannelSetupFailed
  | trinoChannelReady
  | datalessChannelSetupFailed
  | datalessChannelSetupCancelled
  | datalessChannelReady
  | healthCheckStarted
  | healthCheckCancelled
  | healthCheckFailed
  | healthCheckSucceeded

inductive ConnectionStateAction
  | deleteConnection
  | resetConnection
  | switchConnectorType (newType : ConnectorType)
  /-- `AUTH_STARTED` of the Salesforce connector -/
  | setupStarted (params : SalesforceConnectionParams)
  /-- the names of the account, of which the first that is there becomes the login -/
  | receivedCoreUserInfo (preferredUsername email : Option Text)
  | hyperChannelSetupStarted (params : HyperConnectionParams)
  | oauthStarted (params : TrinoConnectionParams)
  | trinoChannelSetupStarted (params : TrinoConnectionParams)
  | datalessSetDemoMode (newDemoConnector : Bool)
  | progress (progress : ConnectorProgress)
  /-- a catalog or query action, `SET_CONNECTION_ACTIVE` or `RENAME_NOTEBOOK` -/
  | other

/-- The status after an action of the Salesforce connector, if it takes it. -/
def salesforceStatus (status : ConnectionStatus) : ConnectorProgress → Option ConnectionStatus
  | .salesforceSetupCancelled => some .authCancelled
  | .salesforceSetupFailed => some .authFailed
  | .salesforceGeneratingPkceChallenge => some .pkceGenerationStarted
  | .salesforceGeneratedPkceChallenge => some .pkceGenerated
  | .salesforceOauthNativeLinkOpened => some .waitingForOauthCodeViaLink
  | .salesforceOauthWebWindowOpened => some .waitingForOauthCodeViaWindow
  | .salesforceOauthWebWindowClosed => some status
  | .salesforceReceivedCoreAuthCode => some .oauthCodeReceived
  | .salesforceRequestingCoreAuthToken => some .accessTokenRequested
  | .salesforceReceivedCoreAuthToken => some .coreAccessTokenReceived
  | .salesforceRequestingDataCloudAccessToken => some .dataCloudTokenRequested
  | .salesforceReceivedDataCloudAccessToken => some .dataCloudTokenReceived
  | .salesforceChannelSetupStarted => some .channelSetupStarted
  | .salesforceChannelSetupCancelled => some .channelSetupCancelled
  | .salesforceChannelSetupFailed => some .channelSetupFailed
  | .salesforceChannelReady => some .channelReady
  | .healthCheckStarted => some .healthCheckStarted
  | .healthCheckCancelled => some .healthCheckCancelled
  | .healthCheckFailed => some .healthCheckFailed
  | .healthCheckSucceeded => some .healthCheckSucceeded
  | _ => none

def hyperStatus : ConnectorProgress → Option ConnectionStatus
  | .hyperChannelSetupCancelled => some .channelSetupCancelled
  | .hyperChannelSetupFailed => some .channelSetupFailed
  | .hyperChannelReady => some .channelReady
  | .healthCheckStarted => some .healthCheckStarted
  | .healthCheckCancelled => some .healthCheckCancelled
  | .healthCheckFailed => some .healthCheckFailed
  | .healthCheckSucceeded => some .healthCheckSucceeded
  | _ => none

def trinoStatus : ConnectorProgress → Option ConnectionStatus
  | .trinoOauthCancelled => some .authCancelled
  | .trinoOauthFailed => some .authFailed
  | .trinoGeneratingPkceChallenge => some .pkceGenerationStarted
  | .trinoGeneratedPkceChallenge => some .pkceGenerated
  | .trinoOauthBrowserOpened => some .waitingForOauthCodeViaLink
  | .trinoReceivedOauthCode => some .oauthCodeReceived
  | .trinoRequestingAccessToken => some .accessTokenRequested
  | .trinoReceivedAccessToken => some .accessTokenReceived
  | .trinoChannelSetupCancelled => some .channelSetupCancelled
  | .trinoChannelSetupFailed => some .channelSetupFailed
  | .trinoChannelReady => some .channelReady
  | .healthCheckStarted => some .healthCheckStarted
  | .healthCheckCancelled => some .healthCheckCancelled
  | .healthCheckFailed => some .healthCheckFailed
  | .healthCheckSucceeded => some .healthCheckSucceeded
  | _ => none

def datalessStatus : ConnectorProgress → Option ConnectionStatus
  | .datalessChannelSetupFailed => some .channelSetupFailed
  | .datalessChannelSetupCancelled => some .channelSetupCancelled
  | .datalessChannelReady => some .channelReady
  | .healthCheckSucceeded => some .healthCheckSucceeded
  | _ => none

/-! ## Reducers -/

/-- A connection with the shared map, which the reducers change in place. -/
abbrev Reduced (H : Hasher) : Type := ConnectionState H × ConnectionSignatureMap

section Reducers

variable (state : ConnectionState H) (notebookId : Text) (signatures : ConnectionSignatureMap)

/-- An action of a connector that sets a status. -/
def reduceProgress (status : Option ConnectionStatus) : Option (Reduced H) :=
  status.map fun connectionStatus => ({ state with connectionStatus }, signatures)

/-- A setup with new parameters: the signature becomes that of a hash. -/
def startSetup (connectionStatus : ConnectionStatus) (details : ConnectionStateDetails)
    (sig : H.Hash) : Reduced H :=
  let updated :=
    updateConnectionSignature state.connectionSignature sig (some notebookId) signatures
  ({ state with connectionStatus, details, connectionSignature := updated.1 }, updated.2)

def reduceSalesforceConnectionState (setupParams : SalesforceConnectionParams) :
    ConnectionStateAction → Option (Reduced H)
  | .deleteConnection => some (state, signatures)
  | .resetConnection => some (state, signatures)
  | .setupStarted params =>
    -- the signature of the details before the action
    some (startSetup state notebookId signatures .authStarted (.salesforce params)
      (computeSalesforceConnectionSignature setupParams H.new))
  | .receivedCoreUserInfo preferredUsername email =>
    let resolvedLogin := (preferredUsername.or email).getD setupParams.login
    some ({ state with details := .salesforce { setupParams with login := resolvedLogin } },
      signatures)
  | .progress progress =>
    reduceProgress state signatures (salesforceStatus state.connectionStatus progress)
  | _ => none

def reduceHyperConnectorState : ConnectionStateAction → Option (Reduced H)
  | .deleteConnection => some (state, signatures)
  | .resetConnection => some (state, signatures)
  | .hyperChannelSetupStarted params =>
    some (startSetup state notebookId signatures .channelSetupStarted (.hyper params)
      (computeHyperConnectionSignature params H.new))
  | .progress progress => reduceProgress state signatures (hyperStatus progress)
  | _ => none

def reduceTrinoConnectorState : ConnectionStateAction → Option (Reduced H)
  | .deleteConnection => some (state, signatures)
  | .resetConnection => some (state, signatures)
  | .oauthStarted params =>
    some (startSetup state notebookId signatures .authStarted (.trino params)
      (computeTrinoConnectionSignature params H.new))
  | .trinoChannelSetupStarted params =>
    some (startSetup state notebookId signatures .channelSetupStarted (.trino params)
      (computeTrinoConnectionSignature params H.new))
  | .progress progress => reduceProgress state signatures (trinoStatus progress)
  | _ => none

/-- The parameters of a dataless connection in demo mode or out of it. -/
def demoParams (newDemoConnector : Bool) : DatalessParams :=
  ⟨if newDemoConnector then some true else none⟩

def reduceDatalessConnectorState : ConnectionStateAction → Option (Reduced H)
  | .deleteConnection => some (state, signatures)
  | .resetConnection => some (state, signatures)
  | .progress progress => reduceProgress state signatures (datalessStatus progress)
  | .datalessSetDemoMode newDemoConnector =>
    some ({ state with
      connectorType := .dataless
      connectionStatus := if newDemoConnector then .notStarted else .channelReady
      details := .dataless (demoParams newDemoConnector) }, signatures)
  | _ => none

/-- The reducer of the connector that the details belong to. -/
def reduceDetails (action : ConnectionStateAction) : Option (Reduced H) :=
  match state.details with
  | .salesforce setupParams =>
    reduceSalesforceConnectionState state notebookId signatures setupParams action
  | .hyper _ => reduceHyperConnectorState state notebookId signatures action
  | .trino _ => reduceTrinoConnectorState state notebookId signatures action
  | .dataless _ => reduceDatalessConnectorState state signatures action

def switchConnectorType (newType : ConnectorType) : Reduced H :=
  if state.connectionStatus ≠ .notStarted then (state, signatures)
  else if state.connectorType = newType then (state, signatures)
  else
    let newDetails := createConnectionStateDetails newType
    let newSig := computeNewConnectionSignatureFromDetails H newDetails
    let created := newConnectionSignature newSig signatures (some notebookId)
    ({ state with
      connectorType := newType
      connectionSignature := created.1
      details := newDetails }, created.2)

/-- `reduceConnectionState`, where `none` stands for the error that is thrown. -/
def reduceConnectionState : ConnectionStateAction → Option (Reduced H)
  | .other => some (state, signatures)
  | .resetConnection =>
    let cleaned := { state with connectionStatus := .notStarted }
    some ((reduceDetails cleaned notebookId signatures .resetConnection).getD (cleaned, signatures))
  | .switchConnectorType newType => some (switchConnectorType state notebookId signatures newType)
  | .deleteConnection =>
    let cleaned := { state with connectionStatus := .notStarted }
    some ((reduceDetails state notebookId signatures .deleteConnection).getD (cleaned, signatures))
  | action => reduceDetails state notebookId signatures action

end Reducers

/-! ## The registry -/

structure ConnectionRegistry (H : Hasher) where
  connectionMap : InsertionMap Text (ConnectionState H)
  connectionsByType : ConnectorType → List Text
  connectionsBySignature : ConnectionSignatureMap

namespace ConnectionRegistry

def empty : ConnectionRegistry H := ⟨.empty, fun _ => [], .empty⟩

/-- The ids of one type of connectors change. -/
def withType (connectorType : ConnectorType) (f : List Text → List Text)
    (connectionsByType : ConnectorType → List Text) : ConnectorType → List Text :=
  fun type =>
    if type = connectorType then f (connectionsByType type) else connectionsByType type

/-- One action of `flushPendingActions`, where `none` stands for the error that is thrown. -/
def applyAction (reg : ConnectionRegistry H) (notebookId : Text) (action : ConnectionStateAction) :
    Option (ConnectionRegistry H) :=
  match reg.connectionMap.get? notebookId with
  | none => some reg
  | some prev =>
    (reduceConnectionState prev notebookId reg.connectionsBySignature action).map fun reduced =>
      let next := reduced.1
      match action with
      | .deleteConnection =>
        { connectionsBySignature :=
            reduced.2.delete prev.connectionSignature.signatureString
          connectionsByType :=
            withType prev.connectorType (·.filter (· ≠ notebookId)) reg.connectionsByType
          connectionMap := reg.connectionMap.delete notebookId }
      | .switchConnectorType _ =>
        let connectionMap := reg.connectionMap.set notebookId next
        if next.connectorType ≠ prev.connectorType then
          { connectionMap
            connectionsByType :=
              withType next.connectorType (· ++ [notebookId])
                (withType prev.connectorType (·.filter (· ≠ notebookId)) reg.connectionsByType)
            connectionsBySignature :=
              (reduced.2.delete prev.connectionSignature.signatureString).set
                next.connectionSignature.signatureString (some notebookId) }
        else { reg with connectionMap, connectionsBySignature := reduced.2 }
      | _ =>
        { reg with
          connectionMap := reg.connectionMap.set notebookId next
          connectionsBySignature := reduced.2 }

end ConnectionRegistry

/-- The registry, with the connections that were created and are not registered yet, by the id that
they were given. -/
structure Connections (H : Hasher) where
  registry : ConnectionRegistry H
  created : InsertionMap Text (ConnectionState H)

namespace Connections

/-- `createConnectionState`, and the id that `useConnectionStateAllocator` draws.  A dataless
connection may get another status. -/
def create (notebookId : Text) (details : ConnectionStateDetails)
    (connectionStatus : ConnectionStatus) (c : Connections H) : Connections H :=
  let connSig := computeNewConnectionSignatureFromDetails H details
  let sig := newConnectionSignature connSig c.registry.connectionsBySignature none
  { registry := { c.registry with connectionsBySignature := sig.2 }
    created := c.created.set notebookId ⟨connectionStatus, details.connectorType, sig.1, details⟩ }

/-- The update of the registry that `useConnectionStateAllocator` asks for. -/
def register (notebookId : Text) (c : Connections H) : Option (Connections H) :=
  (c.created.get? notebookId).map fun conn =>
    { registry :=
        { connectionMap := c.registry.connectionMap.set notebookId conn
          connectionsByType :=
            ConnectionRegistry.withType conn.connectorType (· ++ [notebookId])
              c.registry.connectionsByType
          connectionsBySignature :=
            c.registry.connectionsBySignature.set conn.connectionSignature.signatureString
              (some notebookId) }
      created := c.created.delete notebookId }

/-- What happens to the connections.  The actions that are dispatched are applied in flushes. -/
inductive Step (H : Hasher)
  | create (notebookId : Text) (details : ConnectionStateDetails) (status : ConnectionStatus)
  | register (notebookId : Text)
  | apply (notebookId : Text) (action : ConnectionStateAction)

/-- A step, if it can come.  The ids that are drawn are new. -/
def step (c : Connections H) : Step H → Option (Connections H)
  | .create notebookId details status =>
    if notebookId ∈ c.registry.connectionMap.keys ∨ notebookId ∈ c.created.keys then none
    else some (c.create notebookId details status)
  | .register notebookId => c.register notebookId
  | .apply notebookId action =>
    (c.registry.applyAction notebookId action).map fun registry => { c with registry }

/-- The connections that are reached by steps that meet a condition. -/
inductive Run (condition : Connections H → Step H → Prop) : Connections H → Prop
  | start : Run condition ⟨.empty, .empty⟩
  | step {c c' : Connections H} (s : Step H) (run : Run condition c) (met : condition c s)
      (stepped : c.step s = some c') : Run condition c'

end Connections

end DashQL.Signature
