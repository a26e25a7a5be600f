namespace Asio

/-- The error conditions the code names, and every other code by its value. -/
inductive ErrorCode
  | success
  | operationCanceled
  | stateNotRecoverable
  | hostUnreachable
  | timedOut
  | other (value : Nat)
  deriving DecidableEq, Repr

/-- What a `catch` clause can tell apart. Throwing an `error_code` by itself is not
    throwing a `system_error`. -/
inductive Exception
  | systemError (code : ErrorCode)
  | errorCode (code : ErrorCode)
  | unknown
  deriving DecidableEq, Repr

/-- `e.code() == errc::operation_canceled` in a handler for `system_error`. -/
def Exception.canceled : Exception → Bool
  | .systemError .operationCanceled => true
  | _ => false

end Asio
