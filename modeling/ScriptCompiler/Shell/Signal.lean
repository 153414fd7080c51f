import ScriptCompiler.Shell.Numeral

/-!
# Signals

Signals have numbers and, most of them, names. The number zero is no signal; among traps it stands
for the end of a shell.
-/

namespace ScriptCompiler.Shell

/-- The names of signals in the order of their numbers, from zero on. -/
def signalNames : List String :=
  ["EXIT", "HUP", "INT", "QUIT", "ILL", "TRAP", "ABRT", "BUS", "FPE", "KILL", "USR1", "SEGV",
    "USR2", "PIPE", "ALRM", "TERM", "16", "CHLD", "CONT", "STOP", "TSTP", "TTIN", "TTOU", "URG",
    "XCPU", "XFSZ", "VTALRM", "PROF", "WINCH", "IO", "PWR", "SYS", "32", "33", "RTMIN"]
    ++ (List.range 15).map (fun n => "RTMIN+" ++ toString (n + 1))
    ++ (List.range 14).map (fun n => "RTMAX-" ++ toString (14 - n))
    ++ ["RTMAX"]

/-- The number that stands for the end of a shell. -/
def atEnd : Nat := 0

/-- The signal for a process that writes what nobody takes. -/
def brokenPipe : Nat := 13

/-- The signal that asks a process to end. -/
def terminate : Nat := 15

/-- The signal that says that a process has ended which this one started. -/
def childEnds : Nat := 17

/-- The signals that do not end a process. -/
def harmless : List Nat := [0, 17, 18, 19, 20, 21, 22, 23, 28]

/-- The signals that no trap catches. -/
def untrapped : List Nat := [9, 19]

/-- The number of a signal that is numbered. -/
def numberedSignal? (s : Raw) : Option Nat :=
  if s.isEmpty || !s.all Char.isDigit then none
  else (smallNumber? s).filter (· < signalNames.length)

/-- The number of a signal that is named or numbered. -/
def signal? (s : Raw) : Option Nat :=
  if !s.isEmpty && s.all Char.isDigit then numberedSignal? s
  else signalNames.findIdx? fun name => name.toList = s.map Char.toUpper

/-- The words for a process that a signal ended. -/
def signalText (signal : Nat) : String :=
  match signal with
  | 1 => "Hangup"
  | 2 => "Interrupt"
  | 3 => "Quit"
  | 4 => "Illegal instruction"
  | 5 => "Trace/breakpoint trap"
  | 6 => "Aborted"
  | 7 => "Bus error"
  | 8 => "Floating point exception"
  | 9 => "Killed"
  | 10 => "User defined signal 1"
  | 11 => "Segmentation fault"
  | 12 => "User defined signal 2"
  | 13 => "Broken pipe"
  | 14 => "Alarm clock"
  | 15 => "Terminated"
  | 16 => "Stack fault"
  | 24 => "CPU time limit exceeded"
  | 25 => "File size limit exceeded"
  | 26 => "Virtual timer expired"
  | 27 => "Profiling timer expired"
  | 29 => "I/O possible"
  | 30 => "Power failure"
  | 31 => "Bad system call"
  | n => if n < 34 then "Unknown signal " ++ toString n
    else "Real-time signal " ++ toString (n - 34)

/-- The signals of which a shell says nothing when they end a process. -/
def quietSignals : List Nat := [2, 13]

end ScriptCompiler.Shell
