import Mathlib

/-!
# The argument unions

Both sides overlay the data of an RCM message with a union of an `in` and an
`out` structure. All fields are 32-bit words except the names, which are arrays
of 25 characters; a word behind a name is aligned to four bytes.
-/

namespace Libdce.Remote

/-- `DIM(args->in.name)`. -/
def nameDim : Nat := 25

namespace EngineOpenArgs

def size : Nat := 32
def inPid : Nat := 0
def inName : Nat := 4
def outEc : Nat := 0
def outEngine : Nat := 4

end EngineOpenArgs

namespace EngineCloseArgs

def size : Nat := 8
def inPid : Nat := 0
def inEngine : Nat := 4

end EngineCloseArgs

namespace Viddec3CreateArgs

def size : Nat := 40
def inPid : Nat := 0
def inEngine : Nat := 4
def inName : Nat := 8
def inParams : Nat := 36
def outCodec : Nat := 0

end Viddec3CreateArgs

namespace Viddec3ControlArgs

def size : Nat := 20
def inPid : Nat := 0
def inCodec : Nat := 4
def inId : Nat := 8
def inDynParams : Nat := 12
def inStatus : Nat := 16
def outRet : Nat := 0

end Viddec3ControlArgs

namespace Viddec3ProcessArgs

def size : Nat := 24
def inPid : Nat := 0
def inCodec : Nat := 4
def inInBufs : Nat := 8
def inOutBufs : Nat := 12
def inInArgs : Nat := 16
def inOutArgs : Nat := 20
def outRet : Nat := 0

end Viddec3ProcessArgs

namespace Viddec3DeleteArgs

def size : Nat := 8
def inPid : Nat := 0
def inCodec : Nat := 4

end Viddec3DeleteArgs

end Libdce.Remote
