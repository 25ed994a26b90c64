import CallAtlas.Text.Utf8

/-!
# Printing messages

Messages are bytes; each is printed as text on a line of its own. The place they are printed to can
crash at its first line.
-/

set_option autoImplicit false

namespace CallAtlas.Printer

/-- Why the printer stopped. -/
structure Crash where
  cause : String
deriving DecidableEq, Repr, Inhabited

/-- The text of a crash. -/
def Crash.message (c : Crash) : String := s!"progress printer panicked: {c.cause}"

/-- The line of a message. -/
def line (message : List UInt8) : String := Text.Utf8.decode message ++ "\n"

/-- What is printed for some messages, if printing does not crash. -/
def print (crash : Option Crash) (messages : List (List UInt8)) : Except Crash String :=
  match crash, messages with
  | some crash, _ :: _ => .error crash
  | _, _ => .ok (String.join (messages.map line))

end CallAtlas.Printer
