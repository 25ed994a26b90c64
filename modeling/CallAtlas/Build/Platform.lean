import CallAtlas.Text.Blank
import CallAtlas.Text.Classes

/-!
# Platforms

A file belongs to a build if its name and its header allow the platform. This module holds
the tags that a platform turns on and the rule for file names; `Build.Constraint` holds the
rules for headers.
-/

set_option autoImplicit false

namespace CallAtlas.Build

/-- The operating system and the processor that a build is for. -/
structure Platform where
  os : String
  arch : String
deriving DecidableEq, Repr, Inhabited

/-- The platform of a machine, whose system and processor may go by other names than in tags. -/
def Platform.ofMachine (system processor : String) : Platform where
  os := if system = "macos" then "darwin" else system
  arch :=
    match processor with
    | "x86_64" => "amd64"
    | "x86" => "386"
    | "aarch64" => "arm64"
    | "powerpc64" => "ppc64le"
    | "loongarch64" => "loong64"
    | "wasm32" => "wasm"
    | other => other

/-- The platform that programs are analysed for unless another one is given. -/
def Platform.host : Platform := .ofMachine "linux" "x86_64"

/-- The names of operating systems. -/
def knownSystems : List String :=
  ["aix", "android", "darwin", "dragonfly", "freebsd", "hurd", "illumos", "ios", "js",
   "linux", "nacl", "netbsd", "openbsd", "plan9", "solaris", "wasip1", "windows", "zos"]

/-- The names of processors. -/
def knownArchitectures : List String :=
  ["386", "amd64", "amd64p32", "arm", "armbe", "arm64", "arm64be", "loong64", "mips", "mipsle",
   "mips64", "mips64le", "mips64p32", "mips64p32le", "ppc", "ppc64", "ppc64le", "riscv", "riscv64",
   "s390", "s390x", "sparc", "sparc64", "wasm"]

/-- The operating systems that the tag `unix` stands for. -/
def unixSystems : List String :=
  ["aix", "android", "darwin", "dragonfly", "freebsd", "hurd", "illumos", "ios", "linux", "netbsd",
   "openbsd", "solaris"]

namespace Platform

variable (p : Platform)

/-- The platform turns a tag on. -/
def enables (tag : String) : Bool :=
  tag == p.os || tag == p.arch || tag == "gc" || tag == "cgo" || Text.startsWith "go1." tag ||
    (tag == "unix" && unixSystems.contains p.os) || (tag == "linux" && p.os == "android") ||
    (tag == "darwin" && p.os == "ios") || (tag == "solaris" && p.os == "illumos")

/-- The words of a file name behind its first low line; a name of a test is read without its
ending. -/
def nameParts (fileName : String) : List String :=
  let stem := (Text.stripSuffix? ".go" fileName).getD fileName
  let stem := (Text.stripSuffix? "_test" stem).getD stem
  (Text.split '_' (String.ofList (stem.toList.dropWhile (· != '_')))).filter
    fun part => !part.isEmpty

/-- The name of a file allows the platform: a system or a processor, or both in this order, at its
end must be turned on. -/
def allowsName (fileName : String) : Bool :=
  match (nameParts fileName).reverse with
  | last :: before :: _ =>
    if knownSystems.contains before && knownArchitectures.contains last then
      p.enables before && p.enables last
    else if knownSystems.contains last || knownArchitectures.contains last then p.enables last
    else true
  | [last] =>
    if knownSystems.contains last || knownArchitectures.contains last then p.enables last else true
  | [] => true

end Platform

end CallAtlas.Build
