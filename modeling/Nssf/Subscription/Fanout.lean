import Nssf.Subscription.Store

/-! The fan-out of a committed change: one retry row for each live subscription that matches,
then one call of the dispatcher. This is what the server installs as the publish seam. -/

namespace Nssf

open Base Run

namespace Subscription

/-- A filter without a tracking area matches everything, one with a tracking area never
matches an event that has none. -/
def filterMatchesEvent (filter : Option Json) (ev : ChangeEvent) : Run Bool :=
  match filter with
  | none => pure true
  | some filter => do
    match ← Json.getObjectItem (some filter) "tai" with
    | none => return true
    | some wanted => return ev.tai.any wanted.compare

def selfNotificationSuppressed (subscriberAmfId : Option String) (ev : ChangeEvent) : Bool :=
  match ev.nfId, subscriberAmfId with
  | some nfId, some amfId => amfId == nfId
  | _, _ => false

structure FanoutState where
  store : SubscriptionStore
  queue : RetryStore
  enqueued : ℕ
  deriving DecidableEq

/-- A matched subscription of a deleted NF becomes a tombstone first, whether or not a row is
written for it. -/
def tombstoneMatch (ev : ChangeEvent) (st : FanoutState) (x : SubscriptionRecord) :
    FanoutState :=
  if ev.changeType = .deleted then { st with store := st.store.memTombstone x.id.text } else st

def enqueueFor (st : FanoutState) (x : SubscriptionRecord) : Run FanoutState := do
  match ← buildSnapshotPayload x.id.text with
  | none => return st
  | some payload =>
    let (ok, queue) ← st.queue.enqueue (some x.id.text) x.callbackUri (some payload) none
    return { st with queue := queue, enqueued := if ok then st.enqueued + 1 else st.enqueued }

def fanoutOne (ev : ChangeEvent) (st : FanoutState) (x : SubscriptionRecord) :
    Run FanoutState := do
  if ← filterMatchesEvent x.filter ev then
    let st := tombstoneMatch ev st x
    if selfNotificationSuppressed x.amfId ev then return st
    else if notificationCallbackUrlAllowed x.callbackUri then enqueueFor st x
    else return st
  else return st

/-- The scan by index: `n` records are left from `i` on. -/
def forEachLive (ev : ChangeEvent) : ℕ → ℕ → FanoutState → Run FanoutState
  | _, 0, st => pure st
  | i, n + 1, st =>
    match st.store.items[i]? with
    | none => pure st
    | some x =>
      if x.tombstone then forEachLive ev (i + 1) n st
      else do
        let st ← fanoutOne ev st x
        forEachLive ev (i + 1) n st

def fanoutChange (s : SubscriptionStore) (q : RetryStore) (ev : ChangeEvent) :
    Run FanoutState :=
  forEachLive ev 0 s.items.length ⟨s, q, 0⟩

/-- What the server does with each event. -/
def fanoutPublish (ev : ChangeEvent) (t : SubscriptionStore × Outbox) :
    Run (SubscriptionStore × Outbox) := do
  let st ← fanoutChange t.1 t.2.queue ev
  let o ← SubscriptionStore.dispatchOne { t.2 with queue := st.queue }
  return (st.store, o)

def cascade : PublishSeam (SubscriptionStore × Outbox) := some fanoutPublish

end Subscription

end Nssf
