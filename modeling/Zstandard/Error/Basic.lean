import Zstandard.Instances

/-!
# Errors

One type names every way an operation can fail, by its cause; the wording is in `Error.message`
alone. A reader or writer knows another type, `IoError`: a kind and a text. Through a reader or
writer that compresses or decompresses, an `Error` travels inside an `IoError` and comes out
again:

* `Error.toIoError` passes an io failure on as it is and wraps any other error;
* `Error.ofIoError` unwraps, and takes an `IoError` that wraps nothing for a failed read.

So `ofIoError` undoes `toIoError` on every error but the io failures (`ofIoError_toIoError`).
-/

namespace Zstandard

/-- The kinds of failure a reader or writer knows. -/
inductive IoKind where
  | notFound | permissionDenied | connectionRefused | connectionReset | hostUnreachable
  | networkUnreachable | connectionAborted | notConnected | addrInUse | addrNotAvailable
  | networkDown | brokenPipe | alreadyExists | wouldBlock | notADirectory | isADirectory
  | directoryNotEmpty | readOnlyFilesystem | staleNetworkFileHandle | invalidInput | invalidData
  | timedOut | writeZero | storageFull | notSeekable | quotaExceeded | fileTooLarge
  | resourceBusy | executableFileBusy | deadlock | crossesDevices | tooManyLinks
  | invalidFilename | argumentListTooLong | interrupted | unsupported | unexpectedEof
  | outOfMemory | other
  deriving Repr, DecidableEq, Inhabited

mutual

/-- Why an operation failed. -/
inductive Error where
  | allocateFailed
  | validateFailed (reason : String)
  | usedAfterClose
  | notEnoughSourceBuffer
  | notEnoughDestinationBuffer
  | notEnoughDestination
  | corruptedSource
  | corruptedDictionary
  | accessIo (cause : IoError)
  | readIo (cause : IoError)
  | writeIo (cause : IoError)
  | unexpected (reason : String)
  | notImplemented
  deriving Repr

/-- What a reader or writer fails with: a kind with a text, or an error that travels inside. -/
inductive IoError where
  | plain (kind : IoKind) (text : String)
  | wrapped (error : Error)
  deriving Repr

end

deriving instance DecidableEq for Error, IoError

instance : Inhabited Error := ⟨.notImplemented⟩
instance : Inhabited IoError := ⟨.plain .other ""⟩

/-- The kind of an io failure; a wrapped error is of no kind in particular. -/
def IoError.kind : IoError → IoKind
  | .plain kind _ => kind
  | .wrapped _ => .other

mutual

/-- The text of an error. -/
def Error.message : Error → String
  | .allocateFailed => "allocate error"
  | .validateFailed reason => "validate error: " ++ reason
  | .usedAfterClose => "used after closed"
  | .notEnoughSourceBuffer => "not enough source buffer"
  | .notEnoughDestinationBuffer => "not enough destination buffer"
  | .notEnoughDestination => "not enough destination"
  | .corruptedSource => "decompressor received corrupted source"
  | .corruptedDictionary => "corrupted dictionary"
  | .accessIo cause => "failed to access IO: " ++ cause.text
  | .readIo cause => "failed to read IO: " ++ cause.text
  | .writeIo cause => "failed to write IO: " ++ cause.text
  | .unexpected reason => "unexpected error: " ++ reason
  | .notImplemented => "not implemented"

/-- The text of an io failure; a wrapped error speaks for itself. -/
def IoError.text : IoError → String
  | .plain _ text => text
  | .wrapped error => error.message

end

/-- The io failure an error is about, if it is about one. -/
def Error.ioCause? : Error → Option IoError
  | .accessIo cause | .readIo cause | .writeIo cause => some cause
  | _ => none

/-- The error as a reader or writer fails with it: an io failure as it is, any other wrapped. -/
def Error.toIoError (e : Error) : IoError := e.ioCause?.getD (.wrapped e)

/-- The error that travelled inside an io failure; one that wraps nothing is a failed read. -/
def Error.ofIoError : IoError → Error
  | .wrapped e => e
  | .plain kind text => .readIo (.plain kind text)

/-- Only the io failures do not come back as themselves. -/
theorem Error.ofIoError_toIoError {e : Error} (h : e.ioCause? = none) :
    Error.ofIoError e.toIoError = e := by
  simp [toIoError, h, ofIoError]

end Zstandard
