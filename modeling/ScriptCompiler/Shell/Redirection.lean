import ScriptCompiler.Shell.Expand

/-!
# Redirections

A redirection makes a number stand for another stream. All targets are expanded first; then the
redirections are made in order, up to the first one that is not possible.
-/

namespace ScriptCompiler.Shell

/-- Why a file is not opened, in the words of the shell. -/
def openText (e : FileError) (missing : String) : Raw :=
  (match e with
    | .notFound | .notDirectory => missing
    | e => causeText e).toList

/-- The names of files that are streams which are open already, by the numbers of these. -/
def streamFiles : List (String × Nat) :=
  [("/dev/stdin", 0), ("/dev/stdout", 1), ("/dev/stderr", 2)] ++
    ["0", "1", "2", "3", "4", "5", "6", "7", "8", "9"].zipIdx.flatMap fun (digit, n) =>
      [("/dev/fd/" ++ digit, n), ("/proc/self/fd/" ++ digit, n)]

/-- The content that a file has when it is opened: what it holds, or nothing if it is emptied. -/
def openedContent (fs : FileSystem) (p : Path) (access : Access) : Except FileError (List UInt8) :=
  match access, fs.read p with
  | .write, _ | _, .error .notFound => .ok []
  | _, content => content

/-- Opens the file of a name, which is made or emptied if it is opened for writing. -/
def openFile (access : Access) (name : Raw) : Run (Except FileError Nat) := do
  let p : Path := ⟨Raw.toString name⟩
  let m ← get
  if name = nullFile then return .ok (← openStream .nothing)
  else if let some n := streamFiles.lookup p.text then
    match m.setting.numbers.lookup n with
    | some stream => return .ok stream
    | none => return .error .notFound
  else if access = .read then
    match m.files.resolve p with
    | .ok names => return .ok (← openStream (.file names 0 .read))
    | .error e => return .error e
  else
    match (openedContent m.files p access).bind (m.files.write p) with
    | .error e => return .error e
    | .ok files =>
      set { m with files }
      match files.resolve p with
      | .ok names => return .ok (← openStream (.file names 0 access))
      | .error e => return .error e

/-- Makes a number stand for the file of a name, and says whether that is possible. -/
def connectFile (number : Nat) (access : Access) (name : Raw) : Run Bool := do
  match ← openFile access name with
  | .ok stream =>
    connect number (some stream)
    return true
  | .error e =>
    let reads : Bool := access = .read
    complain ((if reads then "cannot open " else "cannot create ").toList ++ name ++ ": ".toList
      ++ openText e (if reads then "No such file" else "Directory nonexistent"))
    return false

/-- Makes a redirection whose target is expanded, and says whether it was made. A text inside the
script is expanded now. -/
def redirectTo (inner : Command → Run Raw) (r : Redirect Raw) : Run Bool := do
  match r.kind with
  | .read => connectFile r.stream .read r.target
  | .write =>
    let m ← get
    if m.setting.options.careful && m.files.isFile ⟨Raw.toString r.target⟩ then
      complain ("cannot create ".toList ++ r.target ++ ": File exists".toList)
      return false
    else connectFile r.stream .write r.target
  | .overwrite => connectFile r.stream .write r.target
  | .append => connectFile r.stream .append r.target
  | .readWrite => connectFile r.stream .readWrite r.target
  | .text number =>
    let text ← Word.whole inner ((← get).texts.getD number [])
    connect r.stream (some (← openStream (.text text)))
    return true
  | .copy =>
    if r.target = ['-'] then
      connect r.stream none
      return true
    else
      match ← stream? (digitsValue r.target) with
      | some stream =>
        connect r.stream (some stream)
        return true
      | none =>
        complain (r.target ++ ": Bad file descriptor".toList)
        return false

/-- Makes redirections, and says whether all were made. -/
def redirectAll (inner : Command → Run Raw) : List (Redirect Raw) → Run Bool
  | [] => return true
  | r :: rs => do if ← redirectTo inner r then redirectAll inner rs else return false

/-- A text says which stream is copied: by a digit, or by a hyphen that there is none. -/
def saysStream (target : Raw) : Bool :=
  match target with
  | [c] => c.isDigit || c = '-'
  | _ => false

/-- Expands the targets of redirections. -/
def expandTargets (inner : Command → Run Raw) : List (Redirect Word) → Run (List (Redirect Raw))
  | [] => return []
  | r :: rs => do
    let target ← Word.whole inner r.target
    if r.kind = .copy && !saysStream target then
      complainAt ((← get).reached.headD 1) "Syntax error: Bad fd number".toList
      throw .failed
    return ⟨r.stream, r.kind, target⟩ :: (← expandTargets inner rs)

/-- Makes the redirections that words say, and says whether all were made. A fault in a text ends no
more than that. -/
def redirect (inner : Command → Run Raw) (rs : List (Redirect Word)) : Run Bool := do
  let rs ← expandTargets inner rs
  tryCatch (redirectAll inner rs) fun
    | .failed => return false
    | e => throw e

end ScriptCompiler.Shell
