import CohesionIpc.Foundation.CommandLine
import Mathlib.Data.Int.ModEq
import Mathlib.Data.UInt

/-! The command line that `client_session::spawn` builds on Windows, in UTF-16. `std::string`s in
UTF-8 are lists of characters. -/

namespace CohesionIpc.Spawn

/-- The code units of a character. -/
def utf16 (c : Char) : List UInt16 :=
  if c.toNat < 0x10000 then [UInt16.ofNat c.toNat]
  else
    [UInt16.ofNat (0xD800 + (c.toNat - 0x10000) / 0x400),
      UInt16.ofNat (0xDC00 + (c.toNat - 0x10000) % 0x400)]

def wide (s : List Char) : List UInt16 := s.flatMap utf16

/-- `std::string::length` of a string in UTF-8. -/
def length (s : List Char) : ℕ := (s.map Char.utf8Size).sum

/-- `MultiByteToWideChar` for `CP_UTF8`: what it makes of a string and a number of bytes,
nothing where it fails. -/
abbrev MultiByteToWideChar := List Char → ℤ → List UInt16

/-- It converts as many bytes as it is told to with an `int`, and it fails for none. -/
structure MultiByteToWideChar.Documented (convert : MultiByteToWideChar) : Prop where
  whole : ∀ s, 0 < length s → length s < 2 ^ 31 → convert s (length s) = wide s
  zero : ∀ s, convert s 0 = []

/-- `unicode`, which throws where nothing is required for the result. -/
def unicode (convert : MultiByteToWideChar) (s : List Char) : Option (List UInt16) :=
  -- `static_cast<int>(s.length())`
  let buffer := convert s (Int.bmod (length s) (2 ^ 32))
  if buffer.length ≤ 0 then none else some buffer

def appendQuoted (cmdl part : List UInt16) : List UInt16 :=
  cmdl ++ [0x22] ++ part ++ [0x22] ++ [0x20]

/-- `cmdl` as `CreateProcessW` gets it; the space at its end has become the terminator. -/
def commandLine (convert : MultiByteToWideChar) (spawnedPath : List Char)
    (arguments : List (List Char)) : Option (List UInt16) := do
  let path ← unicode convert spawnedPath
  let cmdl ← arguments.foldlM
    (fun cmdl i => (unicode convert i).map (appendQuoted cmdl)) (appendQuoted [] path)
  some (cmdl.dropLast ++ [0])

/-- What the C runtime looks for in a command line. -/
def marks : Marks UInt16 where
  quote := 0x22
  backslash := 0x5C
  blank u := u = 0x20 ∨ u = 0x09
  quote_ne := by decide
  blank_quote := by decide
  blank_backslash := by decide

/-- The arguments of `main` in the process that is given `cmdl`. -/
def arguments (cmdl : List UInt16) : List (List UInt16) :=
  marks.argv false [] (cmdl.takeWhile (· ≠ 0))

end CohesionIpc.Spawn
