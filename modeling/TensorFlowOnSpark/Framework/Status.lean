/-!
# Statuses

`Status` of `lib/core/status.h`: a null state is success, otherwise a code other than `OK`
and a message.
-/

namespace TensorFlowOnSpark.Framework

/-- The values of `error::Code` other than `OK`. -/
inductive Code where
  | cancelled | unknown | invalidArgument | deadlineExceeded | notFound | alreadyExists
  | permissionDenied | unauthenticated | resourceExhausted | failedPrecondition | aborted
  | outOfRange | unimplemented | internal | unavailable | dataLoss
deriving DecidableEq, Repr

inductive Status where
  | ok
  | error (code : Code) (message : String)
deriving DecidableEq, Repr

namespace Status

def code? : Status → Option Code
  | .ok => none
  | .error code _ => some code

def errorMessage : Status → String
  | .ok => ""
  | .error _ message => message

end Status

namespace Errors

def aborted (message : String) : Status := .error .aborted message

def cancelled (message : String) : Status := .error .cancelled message

def outOfRange (message : String) : Status := .error .outOfRange message

def invalidArgument (message : String) : Status := .error .invalidArgument message

def dataLoss (message : String) : Status := .error .dataLoss message

def resourceExhausted (message : String) : Status := .error .resourceExhausted message

def appendToMessage : Status → String → Status
  | .ok, _ => .ok
  | .error code message, text => .error code (message ++ "\n\t" ++ text)

end Errors

end TensorFlowOnSpark.Framework
