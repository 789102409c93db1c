/-
The context of one completer request: the client's buffers, the cursor and the
compiler flags.
-/
import SSVim.Text

namespace SSVim
namespace Completer

/-- A buffer of the client that has not been written to disk. -/
structure UnsavedFile where
  contents : Str
  fileName : Str
  deriving DecidableEq

structure CompletionContext where
  sourceFilename : Str
  line : UInt32
  column : UInt32
  flags : List Str
  unsavedFiles : List UnsavedFile
  deriving DecidableEq

/-- The OSX SDK arguments used when the client sends no flags. -/
def defaultOSXArgs : List Str :=
  [lit "-sdk",
   lit "/Applications/Xcode.app/Contents/Developer/Platforms/MacOSX.platform/Developer/SDKs/MacOSX.sdk",
   lit "-target", lit "x86_64-apple-macosx10.12"]

def CompletionContext.compilerArgs (ctx : CompletionContext) : List Str :=
  if ctx.flags.length = 0 then defaultOSXArgs else ctx.flags

/-- Transform completion flags into diagnostic flags: every occurrence of the
file name is dropped. -/
def diagnosticFlagsFromFlags (filename : Str) (flags : List Str) : List Str :=
  flags.filter fun f => f ≠ filename

/-- The context `CandidatesForLocationInFile` builds.  The `int` line and column
are converted to `unsigned`. -/
def completionContext (filename : Str) (line column : Int32) (unsavedFiles : List UnsavedFile)
    (flags : List Str) : CompletionContext :=
  { sourceFilename := filename, line := line.toUInt32, column := column.toUInt32,
    flags := flags, unsavedFiles := unsavedFiles }

/-- The context `DiagnosticsForFile` builds. -/
def diagnosticsContext (filename : Str) (unsavedFiles : List UnsavedFile)
    (flags : List Str) : CompletionContext :=
  { sourceFilename := filename, line := 0, column := 0,
    flags := diagnosticFlagsFromFlags filename flags, unsavedFiles := unsavedFiles }

end Completer
end SSVim
