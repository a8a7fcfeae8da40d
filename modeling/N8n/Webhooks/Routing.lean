import Mathlib.Data.List.Forall2
import Mathlib.Data.List.MinMax
import N8n.Lib.CodeUnits

namespace N8n.Webhooks

open N8n.Lib

def slash : UInt16 := 0x2F
def colon : UInt16 := 0x3A
def hyphen : UInt16 := 0x2D

inductive Method where
  | delete
  | get
  | head
  | patch
  | post
  | put
  deriving DecidableEq

def Method.text : Method → CodeUnits
  | .delete => ascii "DELETE"
  | .get => ascii "GET"
  | .head => ascii "HEAD"
  | .patch => ascii "PATCH"
  | .post => ascii "POST"
  | .put => ascii "PUT"

/-- `path.split('/')`. -/
def segments (path : CodeUnits) : List CodeUnits := path.splitOn slash

def isParameter (segment : CodeUnits) : Bool := segment.head? == some colon

def isDynamicWebhookPath (path : CodeUnits) : Bool := path.head? == some colon || decide ([slash, colon] <:+: path)

/-- A row of the table. Only `createWebhook` sets the last two columns. -/
structure WebhookEntity where
  workflowId : CodeUnits
  webhookPath : CodeUnits
  method : Method
  node : CodeUnits
  webhookId : Option CodeUnits
  pathLength : Option Nat
  dynamic : webhookId.isSome = true → isDynamicWebhookPath webhookPath = true
  length_eq : webhookId.isSome = true → pathLength = some (segments webhookPath).length
  deriving DecidableEq

def cacheKeyOf (method : Method) (path : CodeUnits) : CodeUnits := ascii "webhook:" ++ method.text ++ hyphen :: path

namespace WebhookEntity

variable (webhook : WebhookEntity)

def uniquePath : CodeUnits :=
  if colon ∈ webhook.webhookPath then webhook.webhookId.getD [] ++ slash :: webhook.webhookPath
  else webhook.webhookPath

def cacheKey : CodeUnits := cacheKeyOf webhook.method webhook.uniquePath

def staticSegments : List CodeUnits := (segments webhook.webhookPath).filter fun segment => !isParameter segment

def isDynamic : Bool := (segments webhook.webhookPath).any isParameter

end WebhookEntity

def normalizeWebhookPath (path : CodeUnits) : CodeUnits :=
  let trimmed := trim path
  let stripped := if trimmed.head? = some slash then trimmed.tail else trimmed
  if stripped.getLast? = some slash then stripped.dropLast else stripped

/-- The node's webhook id counts only if it is not empty. -/
def createWebhook (workflowId path : CodeUnits) (method : Method) (node : CodeUnits)
    (nodeWebhookId : Option CodeUnits) : WebhookEntity :=
  let webhookPath := normalizeWebhookPath path
  if h : isDynamicWebhookPath webhookPath = true ∧ nodeWebhookId.getD [] ≠ [] then
    { workflowId, webhookPath, method, node, webhookId := nodeWebhookId
      pathLength := some (segments webhookPath).length, dynamic := fun _ => h.1, length_eq := fun _ => rfl }
  else
    { workflowId, webhookPath, method, node, webhookId := none
      pathLength := none, dynamic := by simp, length_eq := (by simp) }

structure CacheEntry where
  key : CodeUnits
  webhook : WebhookEntity
  own_key : key = cacheKeyOf webhook.method webhook.webhookPath ∨ key = webhook.cacheKey
  deriving DecidableEq

abbrev WebhookCache := List CacheEntry

def WebhookCache.get (cache : WebhookCache) (key : CodeUnits) : Option WebhookEntity :=
  (cache.find? fun entry => entry.key = key).map CacheEntry.webhook

def findStaticWebhookInDb (rows : List WebhookEntity) (method : Method) (path : CodeUnits) : Option WebhookEntity :=
  rows.find? fun webhook => webhook.webhookPath = path ∧ webhook.method = method

def allStaticSegmentsMatch (requestSegments : List CodeUnits) (webhook : WebhookEntity) : Bool :=
  webhook.staticSegments.all (requestSegments.contains ·)

structure Best where
  webhook : Option WebhookEntity
  maxMatches : Nat

def Best.consider (requestSegments : List CodeUnits) (acc : Best) (webhook : WebhookEntity) : Best :=
  if allStaticSegmentsMatch requestSegments webhook = true ∧ webhook.staticSegments.length > acc.maxMatches then
    ⟨some webhook, webhook.staticSegments.length⟩
  -- edge case: if path is `:var`, match on anything
  else if webhook.staticSegments.length = 0 ∧ acc.webhook = none then
    ⟨some webhook, acc.maxMatches⟩
  else
    acc

def pickMatchingTemplate (candidates : List WebhookEntity) (requestSegments : List CodeUnits) : Option WebhookEntity :=
  (candidates.foldl (Best.consider requestSegments) ⟨none, 0⟩).webhook

def isCandidate (method : Method) (path : CodeUnits) (webhook : WebhookEntity) : Bool :=
  webhook.webhookId = (segments path).head? && webhook.method = method &&
    webhook.pathLength = some (segments path).tail.length

def findDynamicWebhook (rows : List WebhookEntity) (method : Method) (path : CodeUnits) : Option WebhookEntity :=
  pickMatchingTemplate (rows.filter (isCandidate method path)) (segments path).tail

/-- The rows in the order in which the database returns them. -/
def findWebhook (cache : WebhookCache) (rows : List WebhookEntity) (method : Method) (path : CodeUnits) :
    Option WebhookEntity :=
  match cache.get (cacheKeyOf method path) with
  | some webhook => some webhook
  | none =>
    match findStaticWebhookInDb rows method path with
    | some webhook => some webhook
    | none => findDynamicWebhook rows method path

def MatchesTemplate (template request : List CodeUnits) : Prop :=
  List.Forall₂ (fun segment requested => isParameter segment = true ∨ segment = requested) template request

namespace WebhookEntity

variable (webhook : WebhookEntity) (method : Method) (path : CodeUnits)

def StoredAt : Prop := webhook.method = method ∧ webhook.webhookPath = path

def Fits : Prop :=
  webhook.isDynamic = true ∧ webhook.method = method ∧ webhook.webhookId = (segments path).head? ∧
    MatchesTemplate (segments webhook.webhookPath) (segments path).tail

end WebhookEntity

def Routes (rows : List WebhookEntity) (method : Method) (path : CodeUnits) (found : Option WebhookEntity) : Prop :=
  ((∃ webhook ∈ rows, webhook.StoredAt method path) →
      ∃ webhook ∈ rows, found = some webhook ∧ webhook.StoredAt method path) ∧
    ((∀ webhook ∈ rows, ¬ webhook.StoredAt method path) →
      match found with
      | none => ∀ webhook ∈ rows, ¬ webhook.Fits method path
      | some webhook => webhook ∈ rows ∧ webhook.Fits method path ∧
          ∀ other ∈ rows, other.Fits method path → other.staticSegments.length ≤ webhook.staticSegments.length)

end N8n.Webhooks
