/-! Why reading or writing failed outside the language. -/
namespace CatLang

inductive Fault where
  | notFound
  | permissionDenied
  | brokenPipe
  | writeZero
  | unexpectedEnd
  | invalidData
  | invalidInput
  | storageFull
  | timedOut
  | interrupted
  | wouldBlock
  | other
  | isDirectory
  | notDirectory
deriving DecidableEq

def Fault.message : Fault → String
  | notFound => "entity not found"
  | permissionDenied => "permission denied"
  | brokenPipe => "broken pipe"
  | writeZero => "write zero"
  | unexpectedEnd => "unexpected end of file"
  | invalidData => "invalid data"
  | invalidInput => "invalid input parameter"
  | storageFull => "no storage space"
  | timedOut => "timed out"
  | interrupted => "operation interrupted"
  | wouldBlock => "operation would block"
  | other => "other error"
  | isDirectory => "is a directory"
  | notDirectory => "not a directory"

end CatLang
