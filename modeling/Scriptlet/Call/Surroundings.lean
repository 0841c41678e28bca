import Scriptlet.Operation

/-
  Functions that would reach outside of a run.

  None does: there is no input, files hold what their names say, directories are always the same, and
  every path exists, a file if there is a point in it. Leaving ends the run with a code.
-/

namespace Scriptlet

namespace Surroundings

/-- Writes a line of values with a separator between them. -/
def print (limits : Limits) (levels : Nat) (values : List Value) (separator : Value) : Run Unit := do
  let line ← Run.look fun h => do
    let separator ← h.format levels separator
    return Text.join separator (← values.mapM (h.format levels))
  Run.write limits line

/-- Writes a prompt; what comes back is always the same. -/
def input (limits : Limits) (levels : Nat) (prompt : Value) : Run Value := do
  Run.write limits (← Run.look fun h => h.format levels prompt)
  return .text "user_input"

/-- A file that is open. -/
def openFile (levels : Nat) (name mode : Value) : Run Value := do
  let name ← Run.look fun h => h.format levels name
  let mode ← Run.look fun h => h.format levels mode
  Run.make (·.newRecord (.file name mode))

/-- What reading a file gives. -/
def readText (name : Text) : Text := "simulated read of file " ++ name

/-- What writing to a file gives. -/
def writeText (name data : Text) : Text := "simulated write to file " ++ name ++ ": " ++ data

/-- What closing a file gives. -/
def closeText (name : Text) : Text := "file " ++ name ++ " closed"

/-- The directory that a run is in. -/
def directory : Text := "/simulated/current/directory"

/-- What every directory holds. -/
def listing : List Text := ["file1.txt", "file2.py", "folder1"]

/-- The path of some parts. -/
def path (h : Heap) (levels : Nat) (parts : List Value) : Except Fault Text := do
  return Text.join "/" (← parts.mapM (h.format levels))

/-- Whether a path is that of a file. -/
def isFile (h : Heap) (levels : Nat) (path : Value) : Except Fault Bool := do
  return (← h.format levels path).any fun c => c.val == 46

/-- Ends the run with a code. -/
def exit {α : Type} (code : Value) : Except Fault α := do
  let n ← code.toInteger
  throw (.error ⟨.aborted n, "program exited with code " ++ (← integerText n), none⟩)

end Surroundings

end Scriptlet
