import Mathlib.Tactic.Common

/-!
# Exceptions

What an operation may throw, by the types the code's handlers can name: `ExceptionWithString`
(`common/utility/include/exception.h`), the `std::runtime_error` of a failed `ENSURE` in a release
build (`ensure_utility.h`), anything else.
-/

namespace TiraRdp

/-- An exception, by the type a handler can name. -/
inductive Exn where
  | exceptionWithString (what : String)
  | runtimeError (what : String)
  | other
  deriving Repr, DecidableEq

/-- Would `catch (ExceptionWithString &e)` take it? -/
def Exn.isExceptionWithString : Exn → Bool
  | .exceptionWithString _ => true
  | .runtimeError _ => false
  | .other => false

end TiraRdp
