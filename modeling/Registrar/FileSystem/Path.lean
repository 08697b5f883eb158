/-!
# Paths

A path is a text whose pieces are separated by slashes. Empty pieces and `.` name the directory they
stand in, `..` the one above. Paths are kept as they are given, because they are shown in messages
and reports.

* `Path.join`, `Path.parent?` : a path below another one, and the path of the directory above;
* `Path.steps` : the pieces that lead somewhere;
* `Path.namesDirectory` : whether a path can name nothing but a directory;
* `Path.maxLength` : how long is too long.
-/

namespace Registrar.Path

def maxLength : Nat := 4096

def maxNameLength : Nat := 255

def splitSlashes : List Char → List (List Char)
  | [] => [[]]
  | c :: rest =>
    if c = '/' then [] :: splitSlashes rest
    else
      match splitSlashes rest with
      | [] => [[c]]
      | first :: others => (c :: first) :: others

def pieces (path : String) : List String := (splitSlashes path.toList).map String.ofList

def joinSlashes : List (List Char) → List Char
  | [] => []
  | [part] => part
  | part :: parts => part ++ '/' :: joinSlashes parts

def ofPieces (pieces : List String) : String :=
  String.ofList (joinSlashes (pieces.map String.toList))

def isAbsolute (path : String) : Bool := path.toList.head? == some '/'

/-- Whether something can be put behind a path without a slash. -/
def isOpen (path : String) : Bool :=
  match path.toList.getLast? with
  | some c => c = '/'
  | none => true

/-- A path behind another one. An absolute path stands for itself. -/
def join (base path : String) : String :=
  if isAbsolute path then path
  else if isOpen base then base ++ path
  else base ++ "/" ++ path

def isIdle (piece : String) : Bool := piece.isEmpty || piece == "."

/-- The number of bytes in front of a name that is put behind a path. -/
def room (path : String) : Nat := if isOpen path then path.utf8ByteSize else path.utf8ByteSize + 1

def steps (path : String) : List String := (pieces path).filter fun piece => !isIdle piece

def namesDirectory (path : String) : Bool :=
  match (pieces path).getLast? with
  | some piece => isIdle piece || piece == ".."
  | none => true

/-- Whether a path ends inside the directory that it names: its last piece is a dot. -/
def endsInside (path : String) : Bool :=
  ((pieces path).filter fun piece => !piece.isEmpty).getLast? == some "."

/-- Pieces, the last one first, without the idle ones at the end. A `.` that the path starts with
stays. -/
def dropIdleEnd (absolute : Bool) : List String → List String
  | [] => []
  | piece :: rest =>
    if isIdle piece && (absolute || piece.isEmpty || !rest.isEmpty) then dropIdleEnd absolute rest
    else piece :: rest

/-- The path of the directory above; `none` for a path without pieces. The pieces in front of the
last one are kept as they are. -/
def parent? (path : String) : Option String :=
  let absolute := isAbsolute path
  match dropIdleEnd absolute (pieces path).reverse with
  | [] => none
  | _ :: rest =>
    let above := ofPieces (dropIdleEnd absolute rest).reverse
    some (if absolute && above.isEmpty then "/" else above)

end Registrar.Path
