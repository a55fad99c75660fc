import Stampline.CommandLine.Run
import Std.Time.DateTime.Timestamp

/-!
# The command line

The world that the program runs in when it is called: the files, the streams and the clock of the
system. The directory of an input cannot be listed from here, so that an input has to be a file. The
clock of the system is read whenever it is asked for, and what is handed out is a clock that stands
still.
-/

namespace Stampline.CommandLine

/-- The fault that an error of the system is. -/
def faultOf : IO.Error → FileFault
  | .noFileOrDirectory .. => .notFound
  | .alreadyExists .. => .occupied
  | .inappropriateType _ code _ => if code = 21 then .isDirectory else .notDirectory
  | .invalidArgument _ code _ => if code = 36 then .tooLong else .notFound
  | .illegalOperation .. => .isDirectory
  | _ => .notFound

/-- Tries an action of the system. -/
def attempt {α : Type} (action : IO α) : IO (Except FileFault α) := do
  match (← action.toBaseIO) with
  | .ok a => return .ok a
  | .error e => return .error (faultOf e)

/-- Reads a stream to its end, behind what was read before. -/
partial def readStream (stream : IO.FS.Stream) (before : ByteArray) : IO ByteArray := do
  let chunk ← stream.read 65536
  if chunk.isEmpty then return before
  readStream stream (before ++ chunk)

/-- The instant that the clock of the system shows. -/
def systemTime : IO Instant := do
  let nanos := (← Std.Time.Timestamp.now).toNanosecondsSinceUnixEpoch.val
  return ⟨nanos / 1000000000, (nanos % 1000000000).toNat⟩

/-- The operations of the program on the system. -/
def systemWorld : World IO where
  readInput := do return (← readStream (← IO.getStdin) .empty).toList
  look := fun path => attempt do return .file (← IO.FS.readBinFile path).toList
  makeDirectories := fun path => attempt (IO.FS.createDirAll path)
  writeFile := fun path bytes => attempt (IO.FS.writeBinFile path ⟨bytes.toArray⟩)
  clock := return .still (← systemTime)
  print := fun text => do
    IO.print text
    (← IO.getStdout).flush
  complain := fun text => IO.eprint text

end Stampline.CommandLine

/-- Runs the program. The fuel, two to the power of 62, is more than any run can use up. -/
def main (args : List String) : IO UInt32 := do
  return (← Stampline.CommandLine.systemWorld.run 4611686018427387904 args).code
