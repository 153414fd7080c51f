import ScriptCompiler.Compile.Program

/-!
# Interactive sessions

A session compiles one snippet after another. Each turn that compiles gets the next number, which
the names generated for it start with, and knows the local variables that earlier turns assigned. A
turn that fails changes nothing. Lines that are typed are collected until they are a whole snippet.
-/

namespace ScriptCompiler

namespace Session

/-- What a turn needs to know of the turns before it. -/
structure State where
  /-- The number of the last turn that was compiled. -/
  turn : UInt64
  vars : VarMap
  deriving DecidableEq, Repr

/-- Before the first turn. -/
def State.start : State :=
  ⟨0, .empty⟩

end Session

/-- A session between two steps. -/
structure Session where
  options : Options
  /-- Each turn prints its value. -/
  echo : Bool
  state : Session.State
  /-- The lines of a snippet that is not whole yet. -/
  pending : List String
  deriving DecidableEq, Repr

namespace Session

/-- A session that goes on from a state. -/
def resume (options : Options) (echo : Bool) (state : State) : Session :=
  ⟨options, echo, state, []⟩

/-- A session before its first turn. -/
def start (options : Options) (echo : Bool) : Session :=
  resume options echo .start

/-! ## Turns -/

/-- What messages call the file that snippets are in. -/
def fileName : String := "(repl)"

/-- The variable that keeps the value of the last turn that was printed. -/
def lastValue : String := "_"

/-- What the names generated for a turn start with. -/
def lead (turn : UInt64) : String :=
  "repl" ++ toString turn.toNat ++ "_"

/-- A node that keeps the value of another one and prints it. -/
def printing (node : Node) : Node :=
  let kept := Node.synthetic (.assign (.localVar lastValue) node)
  .synthetic (.message none "puts" [.synthetic (.message (some kept) "inspect" [])])

/-- The program that prints the value of its last statement too. -/
def echoLast : Body → Body
  | [] => []
  | [node] => [printing node]
  | node :: nodes => node :: echoLast nodes

/-- The C file for a snippet, and the state after its turn. -/
def turn (fs : FileSystem) (s : Session) (source : String) :
    Except CompileError (String × State) := do
  let number := s.state.turn + 1
  let program ← (parse fileName source s.state.vars.names).mapError .parse
  let (expanded, _) := Load.expand (s.options.settings fs) ⟨fileName⟩ program .empty
  let program ← expanded.mapError .load
  let program := if s.echo then echoLast program else program
  let (result, ctx) :=
    Lowering.compileFrom (.start (lead number) s.state.vars) .snippet program
  let text ← result.mapError .lowering
  return (text, ⟨number, ctx.vars⟩)

/-- Compiles a whole snippet. Lines that wait for others go on waiting. -/
def compileTurn (fs : FileSystem) (s : Session) (source : String) :
    Except CompileError String × Session :=
  match s.turn fs source with
  | .ok (text, state) => (.ok text, { s with state })
  | .error e => (.error e, s)

/-! ## Lines -/

/-- What a line makes of a session. -/
inductive Reply where
  /-- The snippet is whole, and this is its C file. -/
  | compiled (text : String)
  /-- More lines are to come. -/
  | incomplete
  /-- There is nothing but blanks. -/
  | empty
  deriving DecidableEq, Repr

/-- Adds a line, and compiles the snippet if it is whole. A snippet that cannot become whole is
dropped. -/
def pushLine (fs : FileSystem) (s : Session) (line : String) :
    Except CompileError Reply × Session :=
  let lines := s.pending ++ [line]
  let source := "\n".intercalate lines
  if source.toList.all Text.isBlank then (.ok .empty, { s with pending := [] })
  else
    match s.turn fs source with
    | .ok (text, state) => (.ok (.compiled text), { s with state, pending := [] })
    | .error e =>
      if e.isIncomplete then (.ok .incomplete, { s with pending := lines })
      else (.error e, { s with pending := [] })

/-- Drops the lines of a snippet that is not whole yet. -/
def discard (s : Session) : Session :=
  { s with pending := [] }

theorem compileTurn_of_error {fs : FileSystem} {s : Session} {source : String} {e : CompileError}
    (h : s.turn fs source = .error e) : s.compileTurn fs source = (.error e, s) := by
  simp [compileTurn, h]

end Session

end ScriptCompiler
