import CrossRef.Command

namespace CrossRef

open Command

def readContent (name : String) : IO Found := do
  try
    return .content (← IO.FS.readBinFile name)
  catch _ =>
    return .unreadable

/-- A name under which nothing opens is taken to be free. -/
def readFile (name : String) : IO Found := do
  try
    discard (IO.FS.Handle.mk name .read)
    readContent name
  catch _ =>
    return .nothing

def writeFile (name : String) (bytes : ByteArray) : IO Bool := do
  try
    IO.FS.writeBinFile name bytes
    return true
  catch _ =>
    return false

def removeFile (name : String) : IO Unit := do
  try
    IO.FS.removeFile name
  catch _ =>
    return ()

def nameOf? (path : Path) : Option String := String.fromUTF8? ⟨path.toArray⟩

/-- The files of the system; a name that is no text leads to nothing that can be used. -/
def systemDisk : IO (Disk IO) := do
  return {
    home := .ofString (← IO.currentDir).toString
    read := fun path => ((nameOf? path).map readFile).getD (pure .unreadable)
    write := fun path bytes =>
      ((nameOf? path).map fun name => writeFile name bytes).getD (pure false)
    remove := fun path => ((nameOf? path).map removeFile).getD (pure ()) }

end CrossRef

def main (args : List String) : IO UInt32 := do
  let reply ← CrossRef.Command.run (← CrossRef.systemDisk) args
  (← IO.getStdout).putStr reply.stdout
  (← IO.getStderr).putStr reply.stderr
  return reply.exit.toUInt32
