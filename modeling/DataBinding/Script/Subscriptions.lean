import DataBinding.Script.Act
/-!
# Steps on streams and subscriptions

A stream is a definition and does nothing until it is subscribed to. A subscription is stored when it
is complete, so what runs while it is being made does not find it. Moving one into a composite takes
it out of its table.
-/

namespace DataBinding.Script

open Reading

/-! ## Streams and subscriptions -/

def streamStep (d : Data) : Reading Act := do
  let id ← text d "id"
  let x ← (← exprOf (d.get "expr")).id
  store Session.streams (fun s t => { s with streams := t }) id x
  return .result .null

def subscribeStep (d : Data) : Reading Act := do
  let id ← text d "id"
  let x ← (← exprOf (d.get "stream")).definition
  let reactions ← reactionsField d
  let counts ← newCounts reactions
  return .perform (.subscribe x (.client (.observe id reactions counts))) (.subscribed id)
    (x.refs Function.refs)

def teardownStep (d : Data) : Reading Act := do
  let id ← text d "id"
  let handle ← change fun h => h.newHandle (.client (.teardown id (d.listFieldD "do")))
  storeHandle id handle (disposedResult false)

def emptyStep (d : Data) : Reading Act := do
  let id ← text d "id"
  let handle ← change fun h => h.newHandle .nothing
  storeHandle id handle (disposedResult true)

def disposeStep (d : Data) : Reading Act := do
  let handle ← subscription (← text d "sub")
  return .perform (.dispose handle) (.result (.ok (.bool true))) []

/-- Take a subscription out of the table. -/
def takeSubscription (d : Data) : Reading Nat := do
  let id ← text d "sub"
  let handle ← subscription id
  update fun s => { s with subscriptions := s.subscriptions.remove id }
  return handle

def dropSubscriptionStep (d : Data) : Reading Act := do
  return .silently (.dispose (← takeSubscription d)) []

def disposedStep (d : Data) : Reading Act := do
  let handle ← subscription (← text d "sub")
  return .result (.bool ((← get).heap.teardown handle).isNothing)

/-! ## Composites -/

def compositeStep (d : Data) : Reading Act := do
  let id ← text d "id"
  let c ← change fun h => h.newComposite
  store Session.composites (fun s t => { s with composites := t }) id c
  return .result .null

/-- The subscription leaves its table in any case; without a composite to take it, it is dropped. -/
def addStep (d : Data) : Reading Act := do
  let id ← text d "composite"
  let handle ← takeSubscription d
  match (← get).client.composites.lookup id with
  | some c => return .perform (.add c handle) (.size c) []
  | none => return .dropping handle (.unknown "composite")

def compositeStateStep (d : Data) : Reading Act := do
  let c ← composite (← text d "composite")
  let x := (← get).heap.composite c
  return .result (.list [.ofNat x.members.length, .bool x.members.isEmpty, .bool x.disposed])

def disposeCompositeStep (d : Data) : Reading Act := do
  let c ← composite (← text d "composite")
  return .perform (.disposeComposite c) (.result (.ok (.bool true))) []

/-- Take a composite out of the table. -/
def takeComposite (d : Data) : Reading Nat := do
  let id ← text d "composite"
  let c ← composite id
  update fun s => { s with composites := s.composites.remove id }
  return c

def foldStep (d : Data) : Reading Act := do
  let c ← takeComposite d
  let id ← text d "id"
  let handle ← change fun h => h.newHandle (.composite c)
  storeHandle id handle (disposedResult false)

def dropCompositeStep (d : Data) : Reading Act := do
  return .silently (.disposeComposite (← takeComposite d)) []

end DataBinding.Script
