/-
  What lies at a path, and what the system says when nothing can be read there.
-/
import Attest.Error

namespace Attest

/-- Why the system refuses a path. -/
inductive PathFault where
  | missing
  | notDirectory
  | isDirectory
  | nameTooLong
  | nul
deriving DecidableEq, Repr

def PathFault.message : PathFault → String
  | missing => "No such file or directory (os error 2)"
  | notDirectory => "Not a directory (os error 20)"
  | isDirectory => "Is a directory (os error 21)"
  | nameTooLong => "File name too long (os error 36)"
  | nul => "file name contained an unexpected NUL byte"

inductive Entry where
  | none (fault : PathFault)
  | directory
  | file (bytes : ByteArray)

namespace Entry

def isFile : Entry → Bool
  | file _ => true
  | _ => false

def exists? : Entry → Bool
  | none _ => false
  | _ => true

/-- The whole text of a file. -/
def text : Entry → Except Error String
  | none fault => .error (.system fault.message)
  | directory => .error (.system PathFault.isDirectory.message)
  | file bytes =>
    match String.fromUTF8? bytes with
    | some s => .ok s
    | Option.none => .error (.system "stream did not contain valid UTF-8")

theorem text_file (s : String) : (file s.toUTF8).text = .ok s := by
  have hvalid : s.toUTF8.IsValidUTF8 := s.isValidUTF8
  have hread : String.fromUTF8? s.toUTF8 = some s := by
    rw [String.fromUTF8?, dif_pos hvalid]
    rfl
  rw [text, hread]

end Entry

end Attest
