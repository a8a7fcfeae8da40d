import Mathlib.Data.List.Perm.Basic
import N8n.Lib.Transition
import N8n.Webhooks.Routing

/-!
The table of webhooks and their cache under any number of lookups, registrations and deletions at once. Each access to
one of the two stores is a step.
-/

namespace N8n.Webhooks

open N8n.Lib

namespace WebhookCache

variable (cache : WebhookCache)

def set (entry : CacheEntry) : WebhookCache := entry :: cache.filter fun other => other.key ≠ entry.key

def deleteMany (keys : List CodeUnits) : WebhookCache := cache.filter fun entry => entry.key ∉ keys

end WebhookCache

def WebhookEntity.Same (webhook other : WebhookEntity) : Prop :=
  webhook.method = other.method ∧ webhook.webhookPath = other.webhookPath ∧ webhook.workflowId = other.workflowId

instance (webhook other : WebhookEntity) : Decidable (webhook.Same other) := inferInstanceAs (Decidable (_ ∧ _ ∧ _))

def WebhookEntity.SameKey (webhook other : WebhookEntity) : Prop :=
  webhook.method = other.method ∧ webhook.webhookPath = other.webhookPath

instance (webhook other : WebhookEntity) : Decidable (webhook.SameKey other) := inferInstanceAs (Decidable (_ ∧ _))

def findHolder (rows : List WebhookEntity) (webhook : WebhookEntity) : Option WebhookEntity :=
  rows.find? fun row => row.SameKey webhook

/-- Columns that the new entity leaves undefined keep their value. -/
def WebhookEntity.updatedBy (row webhook : WebhookEntity) : WebhookEntity :=
  if h : webhook.webhookId = none ∧ row.webhookPath = webhook.webhookPath then
    { webhook with
      webhookId := row.webhookId
      pathLength := row.pathLength
      dynamic := h.2 ▸ row.dynamic
      length_eq := h.2 ▸ row.length_eq }
  else webhook

def updateRows (rows : List WebhookEntity) (webhook : WebhookEntity) : List WebhookEntity :=
  rows.map fun row => if row.SameKey webhook then row.updatedBy webhook else row

def removeRows (rows webhooks : List WebhookEntity) : List WebhookEntity :=
  rows.filter fun row => ∀ webhook ∈ webhooks, ¬ row.SameKey webhook

inductive LookupPhase where
  | begun
  /-- Nothing in the cache. -/
  | missed
  /-- No row at the path itself. -/
  | unstored
  /-- The result, and the entry that is on its way to the cache. -/
  | returned (result : Option WebhookEntity) (entry : Option CacheEntry)
  deriving DecidableEq

structure Lookup where
  method : Method
  path : CodeUnits
  phase : LookupPhase
  deriving DecidableEq

inductive StorePhase where
  | begun
  | refused
  /-- The row of the same workflow is to be updated. -/
  | held
  | written
  /-- Returned, or failed with an error. -/
  | ended
  deriving DecidableEq

structure Store where
  webhook : WebhookEntity
  phase : StorePhase
  deriving DecidableEq

inductive DeletionPhase where
  | begun
  | read
  | removed
  | resolved
  deriving DecidableEq

structure Deletion where
  workflowId : CodeUnits
  phase : DeletionPhase
  webhooks : List WebhookEntity
  /-- The keys are gone from the cache. Nothing waits for that. -/
  dropped : Bool
  deriving DecidableEq

structure ServiceState where
  rows : List WebhookEntity
  cache : WebhookCache
  lookups : List Lookup
  stores : List Store
  deletions : List Deletion
  deriving DecidableEq

inductive ServiceAction where
  | findWebhook (method : Method) (path : CodeUnits)
  | readCache (lookup : Nat) (fails : Bool)
  | readStored (lookup : Nat)
  /-- The rows come in any order. -/
  | readTemplates (lookup : Nat) (order : List WebhookEntity)
  | cacheFound (lookup : Nat) (fails : Bool)
  | storeWebhook (webhook : WebhookEntity)
  | insert (store : Nat) (fails : Bool)
  | readHolder (store : Nat)
  | update (store : Nat)
  | cacheStored (store : Nat) (fails : Bool)
  | deleteWorkflowWebhooks (workflowId : CodeUnits)
  | readRows (deletion : Nat)
  | dropKeys (deletion : Nat)
  | removeRows (deletion : Nat)
  | resolve (deletion : Nat)
  /-- The entry is evicted, or its time is over. -/
  | expire (key : CodeUnits)
  deriving DecidableEq

namespace ServiceState

variable (s : ServiceState)

def setLookup (i : Nat) (lookup : Lookup) (phase : LookupPhase) : ServiceState :=
  { s with lookups := s.lookups.set i { lookup with phase } }

def setStore (i : Nat) (store : Store) (phase : StorePhase) : ServiceState :=
  { s with stores := s.stores.set i { store with phase } }

def setDeletion (i : Nat) (deletion : Deletion) : ServiceState := { s with deletions := s.deletions.set i deletion }

/-- What `findWebhook` does at one of its accesses. -/
def stepLookup (i : Nat) (lookup : Lookup) : ServiceAction → Option ServiceState
  | .readCache _ fails =>
    if lookup.phase = .begun then
      -- A failed query counts as a miss.
      match if fails then none else s.cache.get (cacheKeyOf lookup.method lookup.path) with
      | some webhook => some (s.setLookup i lookup (.returned (some webhook) none))
      | none => some (s.setLookup i lookup .missed)
    else none
  | .readStored _ =>
    if lookup.phase = .missed then
      match h : findStaticWebhookInDb s.rows lookup.method lookup.path with
      | some webhook =>
        have hat := of_decide_eq_true (List.find?_some h :)
        let entry := ⟨cacheKeyOf lookup.method lookup.path, webhook, .inl (by rw [← hat.1, ← hat.2])⟩
        some (s.setLookup i lookup (.returned (some webhook) (some entry)))
      | none => some (s.setLookup i lookup .unstored)
    else none
  | .readTemplates _ order =>
    if lookup.phase = .unstored ∧ order.Perm s.rows then
      some (s.setLookup i lookup (.returned (findDynamicWebhook order lookup.method lookup.path) none))
    else none
  | .cacheFound _ fails =>
    match lookup.phase with
    | .returned result (some entry) =>
      let cache := if fails then s.cache else WebhookCache.set s.cache entry
      some { s with cache, lookups := s.lookups.set i { lookup with phase := .returned result none } }
    | _ => none
  | _ => none

/-- What `storeWebhook` does at one of its accesses. -/
def stepStore (i : Nat) (store : Store) : ServiceAction → Option ServiceState
  | .insert _ fails =>
    if store.phase = .begun then
      if fails = true ∨ (findHolder s.rows store.webhook).isSome then some (s.setStore i store .refused)
      else some ({ s with rows := s.rows ++ [store.webhook] }.setStore i store .written)
    else none
  | .readHolder _ =>
    if store.phase = .refused then
      match findHolder s.rows store.webhook with
      -- The error of the insertion is thrown again.
      | none => some (s.setStore i store .ended)
      | some existing =>
        -- Path is held by a different workflow - reject instead of overwriting.
        if existing.workflowId ≠ store.webhook.workflowId then some (s.setStore i store .ended)
        else some (s.setStore i store .held)
    else none
  | .update _ =>
    if store.phase = .held then
      some ({ s with rows := updateRows s.rows store.webhook }.setStore i store .written)
    else none
  | .cacheStored _ fails =>
    if store.phase = .written then
      let entry := ⟨store.webhook.cacheKey, store.webhook, .inr rfl⟩
      let cache := if fails then s.cache else WebhookCache.set s.cache entry
      some ({ s with cache }.setStore i store .ended)
    else none
  | _ => none

/-- What `deleteWorkflowWebhooks` does at one of its accesses. A removal that fails leaves the call where it is. -/
def stepDeletion (i : Nat) (deletion : Deletion) : ServiceAction → Option ServiceState
  | .readRows _ =>
    if deletion.phase = .begun then
      let webhooks := s.rows.filter fun row => row.workflowId = deletion.workflowId
      some (s.setDeletion i { deletion with phase := .read, webhooks })
    else none
  | .dropKeys _ =>
    if deletion.phase ≠ .begun ∧ deletion.dropped = false then
      let cache := WebhookCache.deleteMany s.cache (deletion.webhooks.map WebhookEntity.cacheKey)
      some ({ s with cache }.setDeletion i { deletion with dropped := true })
    else none
  | .removeRows _ =>
    if deletion.phase = .read then
      let rows := Webhooks.removeRows s.rows deletion.webhooks
      some ({ s with rows }.setDeletion i { deletion with phase := .removed })
    else none
  | .resolve _ =>
    if deletion.phase = .removed then some (s.setDeletion i { deletion with phase := .resolved }) else none
  | _ => none

def step (s : ServiceState) (action : ServiceAction) : Option ServiceState :=
  match action with
  | .findWebhook method path => some { s with lookups := s.lookups ++ [⟨method, path, .begun⟩] }
  | .storeWebhook webhook => some { s with stores := s.stores ++ [⟨webhook, .begun⟩] }
  | .deleteWorkflowWebhooks workflowId =>
    some { s with deletions := s.deletions ++ [⟨workflowId, .begun, [], false⟩] }
  | .expire key => some { s with cache := s.cache.filter fun entry => entry.key ≠ key }
  | .readCache i _ | .readStored i | .readTemplates i _ | .cacheFound i _ =>
    s.lookups[i]?.bind fun lookup => s.stepLookup i lookup action
  | .insert i _ | .readHolder i | .update i | .cacheStored i _ =>
    s.stores[i]?.bind fun store => s.stepStore i store action
  | .readRows i | .dropKeys i | .removeRows i | .resolve i =>
    s.deletions[i]?.bind fun deletion => s.stepDeletion i deletion action

/-- No call is in progress, and the cache is empty. -/
def Initial : Prop := s.cache = [] ∧ s.lookups = [] ∧ s.stores = [] ∧ s.deletions = []

end ServiceState

def webhookService : TransitionSystem ServiceState ServiceAction where
  init := ServiceState.Initial
  step := ServiceState.step

def Lookup.isFinished (lookup : Lookup) : Bool :=
  match lookup.phase with
  | .returned _ none => true
  | _ => false

def Lookup.Found (lookup : Lookup) (webhook : WebhookEntity) : Prop :=
  ∃ entry, lookup.phase = .returned (some webhook) entry

def ServiceState.Stores (s : ServiceState) (webhook : WebhookEntity) : Prop := ∃ row ∈ s.rows, row.Same webhook

instance (s : ServiceState) (webhook : WebhookEntity) : Decidable (s.Stores webhook) :=
  inferInstanceAs (Decidable (∃ row ∈ s.rows, row.Same webhook))

/-- A deletion of the webhook resolves, the lookups from before come to their ends, and then another lookup runs. The
webhook is not stored again. -/
inductive LateLookup (ok : ServiceState → ServiceAction → Prop) (webhook : WebhookEntity) : Nat → ServiceState → Prop
  | intro {before resolved later begun s : ServiceState} {d : Nat} {deletion : Deletion} {method : Method}
      {path : CodeUnits} (hbefore : webhookService.Reachable ok before)
      (hdeletion : before.deletions[d]? = some deletion) (hwebhook : webhook ∈ deletion.webhooks)
      (hok : ok before (.resolve d)) (hresolve : webhookService.step before (.resolve d) = some resolved)
      (hgone : ¬ resolved.Stores webhook)
      (hlater : webhookService.Leads (fun s a => ok s a ∧ ¬ s.Stores webhook) resolved later)
      (hfinished : ∀ lookup ∈ later.lookups.take resolved.lookups.length, lookup.isFinished = true)
      (hbegin : webhookService.step later (.findWebhook method path) = some begun)
      (hrun : webhookService.Leads (fun s a => ok s a ∧ ¬ s.Stores webhook) begun s) :
      LateLookup ok webhook later.lookups.length s

end N8n.Webhooks
