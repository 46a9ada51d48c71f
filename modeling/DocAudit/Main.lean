import DocAudit.CommandLine.Help
import DocAudit.Run
import DocAudit.Survey
/-!
# The program

Puts the files that a run looks at on a `Disk`, runs the program on it, and prints what the program
says. Nothing is decided here.
-/

namespace DocAudit

/-- Puts what stands at a path on the disk. -/
def Disk.visit (disk : Disk) (p : Path) : IO Disk := do
  let real := (← IO.currentDir) / p.text
  if p.text = "" ∨ !(← real.pathExists) then return disk
  else if ← real.isDir then
    return if disk.isDirectory p then disk else disk.write p (.directory [])
  else
    return disk.write p (.file (Content.ofBytes (← IO.FS.readBinFile real).toList))

/-- Puts what stands at a path on the disk, and everything on the way to it. -/
def Disk.visitWay (disk : Disk) (p : Path) : IO Disk :=
  p.ancestors.reverse.foldlM Disk.visit disk

/-- Puts the names below a directory on the disk; the files are left unread. -/
partial def Disk.visitBelow (disk : Disk) (directory : Path) (depth : Option Nat) : IO Disk := do
  let real := (← IO.currentDir) / directory.text
  if depth = some 0 ∨ !(← real.isDir) then return disk
  (← real.readDir).foldlM (fun disk entry => do
    let p := directory.join ⟨entry.fileName⟩
    if ← entry.path.isDir then (← disk.visit p).visitBelow p (depth.map (· - 1))
    else return if disk.exists p then disk else disk.write p (.file .binary)) disk

/-- Puts everything on the disk that a check with the given settings looks at, step by step. -/
def Disk.survey (disk : Disk) (given : GivenSettings) : IO Disk := do
  let disk ← given.marks.foldlM Disk.visitWay disk
  let (settings, _) := Settings.resolve disk given
  let disk ← settings.searches.foldlM (fun disk s => do
    (← disk.visitWay s.directory).visitBelow s.directory s.depth) disk
  let expansion := Expansion.ofPatterns disk settings.root settings.libraries
  expansion.companions.foldlM Disk.visitWay disk

/-- A disk with nothing but the current directory. -/
def Disk.here : IO Disk := do
  let place := (Path.pieces ⟨(← IO.currentDir).toString⟩)
  return { root := Entry.put default place default, current := place }

end DocAudit

open DocAudit in
/-- Runs the program with the words of its command line. -/
def main (words : List String) : IO UInt32 := do
  let color := (← IO.getEnv "NO_COLOR").isNone
  match Command.parse words with
  | .error u =>
    if u.exitCode = 0 then IO.println u.text else IO.eprintln u.text
    return u.exitCode.toUInt32
  | .ok c =>
    let here ← Disk.here
    let r := c.run (← (c.given?.elim (pure here) here.survey)) color
    r.err.forM IO.eprintln
    r.out.forM IO.println
    return r.exitCode.toUInt32
