import ScriptCompiler.C.Layout
import ScriptCompiler.C.Print
import ScriptCompiler.Lowering.Node

/-!
# Compiling programs

A program whose directives were replaced by the contents of their files becomes one file of C.
-/

namespace ScriptCompiler

/-- The function as text. -/
def C.Function.toText (f : C.Function) : C.FunctionText :=
  ⟨f.name.text, f.signature, C.linesOf f.body⟩

namespace Lowering

/-- The file made of parts, unless it is a unit whose name is not a C identifier. -/
def assemble (kind : C.FileKind) (functions : List C.FunctionText)
    (statements last : List String) : Except Failure String :=
  match kind with
  | .unit name =>
    if C.isIdentifier name then .ok (C.file kind functions statements last)
    else .error (.invalidUnitName name)
  | .program | .snippet => .ok (C.file kind functions statements last)

/-- The lines of a body before the one that returns, and that one. -/
def Code.splitReturn (code : Code) : List String × List String :=
  let lines := C.linesOf code.stmts
  (lines.take (lines.length - 1), lines.drop (lines.length - 1))

/-- The file that a program is compiled to. -/
def compileStep (kind : C.FileKind) (program : Body) : Step String := do
  let code ← lowerBody program
  let (statements, last) := code.splitReturn
  match assemble kind (code.functions.map C.Function.toText) statements last with
  | .ok text => return text
  | .error failure => throw failure

/-- The file that a program is compiled to from a state, and the state after it. -/
def compileFrom (ctx : Context) (kind : C.FileKind) (program : Body) :
    Except Failure String × Context :=
  compileStep kind program ctx

/-- What the names generated for a unit start with. -/
def unitLead (unit : String) : String :=
  unit ++ "_"

/-- What the names generated for a file start with: names of a unit start with the unit's. -/
def leadOf : C.FileKind → String
  | .unit name => unitLead name
  | .program | .snippet => ""

/-- The file that a program is compiled to. -/
def compile (kind : C.FileKind) (program : Body) : Except Failure String :=
  (compileFrom (.start (leadOf kind) .empty) kind program).1

end Lowering

end ScriptCompiler
