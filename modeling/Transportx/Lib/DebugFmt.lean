/-!
# Transportx.Lib.DebugFmt — the builders of `core::fmt::Debug`

General support.  A `Debug` implementation is a function of the formatter.  The formatter has the flag
of the pretty form, and the representations of primitive values, which are arbitrary: nothing here depends on
how a string is escaped or a number is written.
-/

namespace DebugFmt

/-- A `Formatter`: the alternate flag, `Debug` of `str` with its quotes, and `Debug` and `Display` of
unsigned numbers. -/
structure Formatter where
  alternate : Bool
  debugStr : String → String
  debugNat : Nat → String
  displayNat : Nat → String

abbrev Fmt := Formatter → String

def writeStr (s : String) : Fmt := fun _ => s

/-- `Debug` of `str` and `String`. -/
def str (s : String) : Fmt := fun f => f.debugStr s

def nat (n : Nat) : Fmt := fun f => f.debugNat n

/-- The `PadAdapter`: four spaces at the start of every line. -/
def pad : Bool → List Char → List Char
  | _, [] => []
  | true, c :: cs => ' ' :: ' ' :: ' ' :: ' ' :: c :: pad (c == '\n') cs
  | false, c :: cs => c :: pad (c == '\n') cs

/-- One entry of a builder on lines of its own. -/
def line (s : String) : String := String.ofList (pad true (s ++ ",\n").toList)

def entries (f : Formatter) (opening closing : String) (texts : List String) : String :=
  if f.alternate then opening ++ "\n" ++ String.join (texts.map line) ++ closing
  else opening ++ String.intercalate ", " texts ++ closing

/-- `debug_struct(name)` with at least one field. -/
def debugStruct (name : String) (fields : List (String × Fmt)) : Fmt := fun f =>
  let texts := fields.map fun field => field.1 ++ ": " ++ field.2 f
  if f.alternate then entries f (name ++ " \x7b") "\x7d" texts
  else entries f (name ++ " \x7b ") " \x7d" texts

/-- `debug_tuple(name)` with at least one field; a tuple without name has no single field here. -/
def debugTuple (name : String) (fields : List Fmt) : Fmt := fun f =>
  entries f (name ++ "(") ")" (fields.map fun field => field f)

def debugList (items : List Fmt) : Fmt := fun f =>
  if items.isEmpty then "[]" else entries f "[" "]" (items.map fun item => item f)

def option : Option Fmt → Fmt
  | none => writeStr "None"
  | some value => debugTuple "Some" [value]

end DebugFmt
