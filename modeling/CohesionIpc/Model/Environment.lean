import CohesionIpc.Foundation.StringBlock
import CohesionIpc.Model.CommandLine

/-! The environment of the server that `client_session::spawn` starts: an array of strings in bytes
on Unix, one block in UTF-16 on Windows. -/

namespace CohesionIpc.Spawn

/-- The bytes of a string in UTF-8. -/
def utf8 (s : List Char) : List UInt8 := s.flatMap String.utf8EncodeChar

/-! ## Unix -/

namespace Unix

/-- What is read through a pointer to the first byte. -/
def cString (s : List Char) : List UInt8 := (utf8 s).takeWhile (· ≠ 0)

/-- `env`, which `execve` gets, as the strings that it points to. -/
def env (environ : List (List UInt8)) (extraEnvironment : List (List Char)) : List (List UInt8) :=
  environ ++ extraEnvironment.map cString

end Unix

/-! ## Windows -/

namespace Windows

def wcslen (e : List UInt16) : ℕ := (e.takeWhile (· ≠ 0)).length

theorem length_drop_wcslen_lt {e : List UInt16} (h : wcslen e ≠ 0) :
    (e.drop (wcslen e + 1)).length < e.length := by
  have hle : wcslen e ≤ e.length := (List.takeWhile_prefix _).length_le
  rw [List.length_drop]
  omega

/-- A signed `char` as a `wchar_t`. -/
def widened (c : UInt8) : UInt16 := c.toInt8.toInt16.toUInt16

/-- The loop over what `GetEnvironmentStringsW` returns. -/
def mergeParent (merged e : List UInt16) : List UInt16 :=
  let length := wcslen e
  if h : length = 0 then merged
  else mergeParent (merged ++ e.take (length + 1)) (e.drop (length + 1))
termination_by e.length
decreasing_by exact length_drop_wcslen_lt h

/-- `initialize_environment`; `insert` is given a range of `char`s and makes no UTF-16 of it. -/
def initializeEnvironment (environmentStrings : List UInt16)
    (extraEnvironment : List (List Char)) : List UInt16 :=
  let merged := extraEnvironment.foldl (fun merged e => merged ++ (utf8 e ++ [0]).map widened)
    (mergeParent [] environmentStrings)
  merged ++ [0]

end Windows

end CohesionIpc.Spawn
