import DataBinding.CallSite
import DataBinding.Token
/-!
# Signatures and groups

Call sites whose entry points would have the same parameters share one entry point. The signature
holds all that shapes the parameter list; where a call site stands is not part of it.

`groups` is the partition of a list of call sites by signature, in the order in which signatures
first occur.
-/

namespace DataBinding

/-- What call sites must share to be served by one entry point. -/
structure Signature where
  owner : TypeRef
  result : TypeRef
  arity : Nat
  roots : List TypeRef
  leaves : List TypeRef
  features : Features
deriving DecidableEq

namespace Signature

/-- The signature in one line; generated entry-point names are hashed from it. -/
def describe (k : Signature) : String :=
  s!"{k.owner.display}->{k.result.display}/{k.arity}"
    ++ String.join ((k.roots.zip k.leaves).map fun (r, l) => s!"|{r.display}:{l.display}")
    ++ "#" ++ Text.hex 2 k.features.bits

end Signature

namespace CallSite

variable (s : CallSite)

def signature : Signature where
  owner := s.owner
  result := s.result
  arity := s.paths.length
  roots := s.paths.map Path.rootType
  leaves := s.paths.map Path.leafType
  features := s.features

/-- The name of what is generated for this call site. The signature is hashed as well: two sites
on one line with the same texts may still differ in types or features. -/
def implementationName : String :=
  "__" ++ s.kind.entryName ++ "_" ++
    placeToken s.owner.name s.location.file s.location.line
      (s.discriminator ++ "@" ++ s.signature.describe)

end CallSite

/-- The name of the entry point that serves a signature. -/
def entryPointName (kind : CallKind) (k : Signature) : String :=
  kind.entryName ++ "_" ++ placeToken k.owner.name "" 0 k.describe

/-- Call sites that share a signature, the first of them set apart. -/
structure Group where
  signature : Signature
  first : CallSite
  rest : List CallSite
deriving DecidableEq

namespace Group

def members (g : Group) : List CallSite := g.first :: g.rest

/-- Put a call site into the group of its signature, or into a new one at the end. -/
def insert (s : CallSite) : List Group → List Group
  | [] => [⟨s.signature, s, []⟩]
  | g :: gs =>
    if g.signature = s.signature then { g with rest := g.rest ++ [s] } :: gs
    else g :: insert s gs

end Group

/-- The groups of a list of call sites. -/
def groups (sites : List CallSite) : List Group :=
  sites.foldl (fun gs s => Group.insert s gs) []

end DataBinding
