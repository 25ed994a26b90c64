import CallAtlas.ImportPath
import CallAtlas.Program.Basic

/-!
# Which calls are kept

A call is kept if both functions belong to packages outside the standard library, the callee is
written in the source, no ignored prefix starts either key, and the module is named in one of them.
-/

set_option autoImplicit false

namespace CallAtlas

/-- The module whose calls are kept, and the prefixes of keys that are not. -/
structure EdgeFilter where
  module : String
  ignore : List String := []
deriving DecidableEq, Repr, Inhabited

namespace EdgeFilter

variable (filter : EdgeFilter)

/-- One of the keys starts with an ignored prefix. -/
def isIgnored (caller callee : String) : Bool :=
  filter.ignore.any fun p => Text.startsWith p caller || Text.startsWith p callee

/-- One of the keys names the module. -/
def isInternal (caller callee : String) : Bool :=
  Text.contains filter.module caller || Text.contains filter.module callee

/-- Both functions belong to a package, and the callee is written in the source. -/
def isWritten (caller callee : Function) : Bool :=
  caller.package.isSome && callee.package.isSome && !callee.kind.isSynthetic

/-- The function belongs to the standard library. -/
def isStandard (f : Function) : Bool := f.package.any ImportPath.isStandard

/-- The call is kept. -/
def accepts (caller callee : Function) : Bool :=
  isWritten caller callee && !(isStandard caller || isStandard callee) &&
    !filter.isIgnored caller.key callee.key && filter.isInternal caller.key callee.key

end EdgeFilter

end CallAtlas
