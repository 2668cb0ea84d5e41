import DataBinding.Text.Literals
/-!
# Tokens for generated names

Generated names must be the same in every run, so they are built from a hash of fixed definition.
A text component counts with its 32-bit FNV-1a hash, a number as itself; components are folded
into 64 bits, each step multiplying by 31, and the sign bit is dropped at the end.
-/

namespace DataBinding

/-- The 32-bit FNV-1a hash of the bytes of a text in UTF-8. -/
def fnv1a (s : String) : UInt32 :=
  s.toUTF8.toList.foldl (fun h b => (h ^^^ b.toUInt32) * 16777619) 2166136261

/-- What has been folded so far. -/
structure TokenFold where
  bits : UInt64
deriving DecidableEq

namespace TokenFold

def start : TokenFold := ⟨17⟩

def add (f : TokenFold) (component : UInt64) : TokenFold := ⟨f.bits * 31 + component⟩

def addText (f : TokenFold) (s : String) : TokenFold := f.add (fnv1a s).toUInt64

def addNumber (f : TokenFold) (n : UInt32) : TokenFold := f.add n.toUInt64

/-- The bits without the sign. -/
def value (f : TokenFold) : UInt64 := f.bits &&& 0x7fffffffffffffff

/-- The value in sixteen digits. -/
def token (f : TokenFold) : String := Text.hex 16 f.value.toNat

end TokenFold

/-- The token of a place in the source: owner type, file, line, and what tells places on one line
apart. -/
def placeToken (owner file : String) (line : UInt32) (discriminator : String) : String :=
  ((((TokenFold.start.addText owner).addText file).addNumber line).addText discriminator).token

end DataBinding
