import Unfurl.Text.Quoted

/-! Empty names and single dots are dropped; double dots stay, since what they lead to depends on the files. -/

namespace Unfurl

inductive PathRoot where
  | here
  | slash
  | doubleSlash
deriving DecidableEq

def PathRoot.text : PathRoot → String
  | .here => ""
  | .slash => "/"
  | .doubleSlash => "//"

structure Path where
  root : PathRoot
  names : List String
deriving DecidableEq

inductive FileFault where
  | missing
  | denied
  | notDirectory
  | isDirectory
  | nameTooLong
  | nullByte
deriving DecidableEq

def FileFault.message (path : String) : FileFault → Text
  | .missing => "[Errno 2] No such file or directory: " ++ Text.quote path
  | .denied => "[Errno 13] Permission denied: " ++ Text.quote path
  | .notDirectory => "[Errno 20] Not a directory: " ++ Text.quote path
  | .isDirectory => "[Errno 21] Is a directory: " ++ Text.quote path
  | .nameTooLong => "[Errno 36] File name too long: " ++ Text.quote path
  | .nullByte => "embedded null byte"

namespace Path

/-- The parts of a text between slashes; `part` is the part that has begun, latest character first. -/
def splitOnto (part : List Char) : List Char → List (List Char)
  | [] => [part.reverse]
  | c :: rest => if c = '/' then part.reverse :: splitOnto [] rest else splitOnto (c :: part) rest

def rootOf : List Char → PathRoot
  | '/' :: '/' :: '/' :: _ => .slash
  | '/' :: '/' :: _ => .doubleSlash
  | '/' :: _ => .slash
  | _ => .here

def parse (text : String) : Path where
  root := rootOf text.toList
  names := ((splitOnto [] text.toList).filter fun part => part ≠ [] ∧ part ≠ ['.']).map String.ofList

/-- The text of a path; the path that names nothing is a dot. -/
def text (p : Path) : String :=
  if p.root = .here ∧ p.names = [] then "." else p.root.text ++ String.intercalate "/" p.names

end Path

end Unfurl
