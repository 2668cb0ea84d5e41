import DataBinding.Plan
/-!
# Errors of running plans
-/

namespace DataBinding

/-- Why a plan cannot be run where it stands. -/
inductive Misplaced where
  | noSourceFirst
  | sourceLater
  | tagOutsideBinding
  | tagWithoutChanges
deriving DecidableEq

def Misplaced.message : Misplaced → String
  | noSourceFirst => "pipeline does not start with a source"
  | sourceLater => "source stage in operator position"
  | tagOutsideBinding => "tagging outside a binding"
  | tagWithoutChanges => "tagging in an untagged binding"

/-- Why a plan or an entry point did not run. -/
inductive RunError where
  /-- No arm of the entry point accepts the caller. -/
  | unresolved (entry file : String) (line : UInt32)
  | unknownEntry (name : String)
  | unknownImplementation (entry implementation : String)
  | missingArgument (slot : Slot)
  | missingScheduler
  | missingSource (implementation : String)
  | invalidPlan (reason : Misplaced)
deriving DecidableEq

namespace RunError

/-- The error's own name in written forms. -/
def name : RunError → String
  | unresolved .. => "UnresolvedDispatch"
  | unknownEntry _ => "UnknownEntryPoint"
  | unknownImplementation .. => "UnknownImplementation"
  | missingArgument _ => "MissingArgument"
  | missingScheduler => "MissingScheduler"
  | missingSource _ => "MissingSourceRoot"
  | invalidPlan _ => "InvalidPlan"

def message : RunError → String
  | unresolved e f l =>
    s!"no implementation of `{e}` matches the call at {f}:{l.toNat}"
  | unknownEntry n => s!"no entry point named `{n}`"
  | unknownImplementation e i => s!"entry point `{e}` names missing implementation `{i}`"
  | missingArgument s => s!"plan needs a {s.word} but none was supplied"
  | missingScheduler => "plan delivers through a scheduler but none was supplied"
  | missingSource i => s!"binding `{i}` was invoked without a source object"
  | invalidPlan r => s!"plan cannot be executed here: {r.message}"

end RunError

end DataBinding
