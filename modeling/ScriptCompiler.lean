import ScriptCompiler.Interchange.Log
import ScriptCompiler.Interchange.Options
import ScriptCompiler.Interchange.Session
import ScriptCompiler.Proofs.Brackets.Bodies
import ScriptCompiler.Proofs.Brackets.Expressions
import ScriptCompiler.Proofs.Brackets.Places
import ScriptCompiler.Proofs.C.Integers
import ScriptCompiler.Proofs.C.Reindentation
import ScriptCompiler.Proofs.Compile.Names
import ScriptCompiler.Proofs.Compile.Outcome
import ScriptCompiler.Proofs.Compile.Payloads
import ScriptCompiler.Proofs.Counters.Restored
import ScriptCompiler.Proofs.Interchange.Nodes
import ScriptCompiler.Proofs.Interchange.Sessions
import ScriptCompiler.Proofs.Literals.Integers
import ScriptCompiler.Proofs.Literals.Values
import ScriptCompiler.Proofs.Load.Anchors
import ScriptCompiler.Proofs.Load.Cycles
import ScriptCompiler.Proofs.Load.Journal
import ScriptCompiler.Proofs.Load.Retries
import ScriptCompiler.Proofs.Lowering.Arguments
import ScriptCompiler.Proofs.Lowering.Exceptions
import ScriptCompiler.Proofs.Lowering.Files
import ScriptCompiler.Proofs.Lowering.Indexes
import ScriptCompiler.Proofs.Lowering.Linking
import ScriptCompiler.Proofs.Lowering.Malformed
import ScriptCompiler.Proofs.Lowering.Requests
import ScriptCompiler.Proofs.Lowering.Strays
import ScriptCompiler.Proofs.Operators.Parsing
import ScriptCompiler.Proofs.Parse.Progress
import ScriptCompiler.Proofs.Renaming.Lowering
import ScriptCompiler.Proofs.Resolution.Programs
import ScriptCompiler.Proofs.Scanning.Cap
import ScriptCompiler.Proofs.Scanning.LineEnds
import ScriptCompiler.Proofs.Scanning.Order
import ScriptCompiler.Proofs.Session.History
import ScriptCompiler.Proofs.Session.Locals
import ScriptCompiler.Proofs.Session.Names
import ScriptCompiler.Proofs.Spans.Nested
import ScriptCompiler.Proofs.Spans.Spacing
import ScriptCompiler.Shell.Launch
