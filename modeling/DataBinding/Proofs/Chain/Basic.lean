import DataBinding.Proofs.Heap.Tables
/-!
# Subscribed chains

A chain is a subscription to a path: the root is watched, and for each further segment a switch
follows the latest parent. Here are the observers and handlers that a chain consists of, and which
other observers leave it alone.
-/

namespace DataBinding

variable {F C : Type}

namespace Observer

/-- The client code that an observer ends in. -/
def code? : Observer F C → Option C
  | .client code => some code
  | .write .. => none
  | .map _ next | .filter _ next | .skip _ next | .distinct _ next | .outer _ _ next
  | .inner _ _ next | .relocate _ _ next | .slot _ _ next => next.code?

/-- What an operator passes values on to, if it does so at once or not at all. -/
def operand? : Observer F C → Option (Observer F C)
  | .map _ next | .filter _ next | .skip _ next | .distinct _ next | .inner _ _ next
  | .slot _ _ next => some next
  | .client _ | .write .. | .outer .. | .relocate .. => none

/-- How many links an observer has still to follow. -/
def depth : Observer F C → Nat
  | .client _ | .write .. => 0
  | .outer _ _ next => next.depth + 1
  | .map _ next | .filter _ next | .skip _ next | .distinct _ next | .inner _ _ next
  | .relocate _ _ next | .slot _ _ next => next.depth

end Observer

/-- A segment that follows a parent, and the switch that does so. -/
structure Link where
  switch : Nat
  segment : Segment

/-- What receives the values that these links are still to be followed from, for another observer at
their end. -/
def Observer.linked (t : Timing) (tail : Observer F C) : List Link → Observer F C
  | [] => tail
  | l :: rest => .outer l.switch (.link l.segment.property t) (tail.linked t rest)

/-- The observer, but for values equal to the one before, where that is remembered. -/
def Observer.filtered (memory : Option Nat) (next : Observer F C) : Observer F C :=
  memory.elim next (.distinct · next)

@[simp] theorem Observer.code?_filtered (memory : Option Nat) (next : Observer F C) :
    (next.filtered memory).code? = next.code? := by
  cases memory <;> rfl

/-- A subscription to a path. -/
structure Chain (C : Type) where
  timing : Timing
  root : ObjectId
  first : Segment
  links : List Link
  /-- The cell with the value delivered last, where equal values are left out. -/
  memory : Option Nat
  /-- The code that the values are delivered to. -/
  code : C
  /-- The id of the handler on the root. -/
  handler : Nat

namespace Chain

variable (c : Chain C)

/-- The segments of the path. -/
def segments : List Segment := c.first :: c.links.map Link.segment

/-- What receives the values of the last segment. -/
def last : Observer F C :=
  match c.memory with
  | some m => .distinct m (.client c.code)
  | none => .client c.code

/-- What receives the values that these links are still to be followed from. -/
def observer : List Link → Observer F C
  | [] => c.last
  | l :: rest => .outer l.switch (.link l.segment.property c.timing) (observer rest)

/-- The handler on the root. -/
def rootHandler : Handler F C :=
  ⟨c.handler, c.timing, c.first.property, false, c.observer c.links⟩

/-- A handler on the parent of a link. -/
def linkHandler (id generation : Nat) (l : Link) (rest : List Link) : Handler F C :=
  ⟨id, c.timing, l.segment.property, false, .inner l.switch generation (c.observer rest)⟩

/-- Observers that the chain has nothing to do with: they deliver to other code or write, none of
their cells is one of the chain's, and their switches follow links. -/
def Spares : Observer F C → Prop
  | .client code => code ≠ c.code
  | .write .. => True
  | .map f next => (∀ s side, f ≠ .publish s side) ∧ Spares next
  | .filter _ next | .skip _ next | .relocate _ _ next | .slot _ _ next => Spares next
  | .distinct m next => c.memory ≠ some m ∧ Spares next
  | .outer i select next => i ∉ c.links.map Link.switch ∧ select ≠ .stream ∧ Spares next
  | .inner i _ next => i ∉ c.links.map Link.switch ∧ Spares next

variable {c} {l : Link} {rest : List Link} {id g : Nat}

theorem last_eq_filtered : (c.last : Observer F C) = (Observer.client c.code).filtered c.memory := by
  unfold last
  split <;> simp [Observer.filtered, *]

theorem observer_eq_linked (links : List Link) :
    (c.observer links : Observer F C) = .linked c.timing c.last links := by
  induction links with
  | nil => rfl
  | cons l rest ih => rw [observer, ih, Observer.linked]

@[simp] theorem code?_last : (c.last : Observer F C).code? = some c.code := by
  unfold last
  split <;> rfl

@[simp] theorem code?_observer (todo : List Link) :
    (c.observer todo : Observer F C).code? = some c.code := by
  induction todo with
  | nil => exact code?_last
  | cons l rest ih => exact ih

@[simp] theorem depth_last : (c.last : Observer F C).depth = 0 := by
  unfold last
  split <;> rfl

@[simp] theorem depth_observer (todo : List Link) :
    (c.observer todo : Observer F C).depth = todo.length := by
  induction todo with
  | nil => exact depth_last
  | cons l rest ih => simp [observer, Observer.depth, ih]

@[simp] theorem code?_rootHandler : (c.rootHandler : Handler F C).observer.code? = some c.code :=
  code?_observer _

@[simp] theorem code?_linkHandler :
    (c.linkHandler id g l rest : Handler F C).observer.code? = some c.code :=
  code?_observer rest

@[simp] theorem depth_rootHandler :
    (c.rootHandler : Handler F C).observer.depth = c.links.length := depth_observer _

@[simp] theorem depth_linkHandler :
    (c.linkHandler id g l rest : Handler F C).observer.depth = rest.length := depth_observer rest

theorem code?_of_spares {o : Observer F C} (h : c.Spares o) : o.code? ≠ some c.code := by
  induction o with
  | client code => simpa [Spares, Observer.code?] using h
  | write => simp [Observer.code?]
  | map _ next ih => exact ih h.2
  | filter _ next ih => exact ih h
  | skip _ next ih => exact ih h
  | distinct _ next ih => exact ih h.2
  | outer _ _ next ih => exact ih h.2.2
  | inner _ _ next ih => exact ih h.2
  | relocate _ _ next ih => exact ih h
  | slot _ _ next ih => exact ih h

/-- The handler on the root belongs to no switch. -/
theorem observer_ne_inner (todo : List Link) (i g : Nat) (next : Observer F C) :
    c.observer todo ≠ .inner i g next := by
  cases todo with
  | nil => unfold observer last; split <;> simp
  | cons => simp [observer]

theorem rootHandler_ne_linkHandler : (c.rootHandler : Handler F C) ≠ c.linkHandler id g l rest :=
  fun h => observer_ne_inner _ _ _ _ (congrArg Handler.observer h)

end Chain

end DataBinding
