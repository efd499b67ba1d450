import ArrayCall.Error.Fault

/-!
# Errors of calls

A `CallError` says what went wrong and where: in which callable, and at which of
the arguments that the caller passed.

* `CallError.position?` is the argument that an error points to, and
  `CallError.rootCause` the innermost error; both look through the wrappers that
  say which composite failed to instantiate its child.
* `CallError.mapPosition` rewrites the position, for adapters that reorder
  arguments.
-/

namespace ArrayCall

/-- Where in a call a failure originated. -/
inductive ArgPosition where
  | source (index : Nat)
  | destination
  | keyword (name : String)
  deriving DecidableEq, Inhabited

def ArgPosition.render : ArgPosition → String
  | source index => "argument " ++ toString index
  | destination => "destination"
  | keyword name => "keyword '" ++ name ++ "'"

/-- The kinds of errors. -/
inductive ErrorKind where
  | typeMismatch
  | arity
  | noMatchingOverload
  | instantiation
  | registration
  | layout
  | execution
  | overflow
  deriving DecidableEq, Inhabited

def ErrorKind.code : ErrorKind → String
  | typeMismatch => "ndcall::type_mismatch"
  | arity => "ndcall::arity"
  | noMatchingOverload => "ndcall::no_matching_overload"
  | instantiation => "ndcall::instantiation"
  | registration => "ndcall::registration"
  | layout => "ndcall::layout"
  | execution => "ndcall::execution"
  | overflow => "overflow"

def ErrorKind.help? : ErrorKind → Option String
  | noMatchingOverload =>
    some "register a kernel for these types or enable promotion in [dispatch]"
  | _ => none

/-- Why a call, or the building of a callable or an array, failed. -/
inductive CallError where
  | typeMismatch (callable : String) (position : ArgPosition) (fault : TypeFault)
  | arity (callable : String) (position : ArgPosition) (fault : ArityFault)
  | noMatchingOverload (callable : String) (types : List Ty) (position : ArgPosition)
  | instantiation (callable : String) (source : CallError)
  | registration (callable : String) (fault : RegistrationFault)
  | layout (fault : LayoutFault)
  | execution (kernel : Option String) (fault : ExecutionFault)
  /-- A number left its machine word. No caller sees this: the program ends. -/
  | overflow
  deriving DecidableEq

namespace CallError

def kind : CallError → ErrorKind
  | typeMismatch .. => .typeMismatch
  | arity .. => .arity
  | noMatchingOverload .. => .noMatchingOverload
  | instantiation .. => .instantiation
  | registration .. => .registration
  | layout .. => .layout
  | execution .. => .execution
  | overflow => .overflow

/-- The argument that an error is about, looking through wrappers. -/
def position? : CallError → Option ArgPosition
  | typeMismatch _ position _ => some position
  | arity _ position _ => some position
  | noMatchingOverload _ _ position => some position
  | instantiation _ source => source.position?
  | _ => none

/-- The innermost error behind any wrappers. -/
def rootCause : CallError → CallError
  | instantiation _ source => source.rootCause
  | e => e

/-- Says which composite failed to instantiate its child. An error that is wrapped
already stays as it is, so the innermost composite is named, once. -/
def wrap (callable : String) : CallError → CallError
  | instantiation inner source => instantiation inner source
  | e => instantiation callable e

/-- Names the kernel that an execution error arose in, unless one is named. -/
def withKernel (name : String) : CallError → CallError
  | execution none fault => execution (some name) fault
  | e => e

def mapPosition (f : ArgPosition → ArgPosition) : CallError → CallError
  | typeMismatch callable position fault => typeMismatch callable (f position) fault
  | arity callable position fault => arity callable (f position) fault
  | noMatchingOverload callable types position => noMatchingOverload callable types (f position)
  | instantiation callable source => instantiation callable (source.mapPosition f)
  | e => e

def message : CallError → String
  | typeMismatch callable position fault =>
    quoted callable ++ ": type mismatch at " ++ position.render ++ ": " ++ fault.message
  | arity callable position fault =>
    quoted callable ++ ": arity error at " ++ position.render ++ ": " ++ fault.message
  | noMatchingOverload callable types position =>
    quoted callable ++ ": no overload accepts (" ++ Ty.renderAll types ++
      "); first rejected at " ++ position.render
  | instantiation callable source =>
    quoted callable ++ ": failed to instantiate child: " ++ source.message
  | registration callable fault =>
    "registration of " ++ quoted callable ++ " failed: " ++ fault.message
  | layout fault => "invalid array layout: " ++ fault.message
  | execution kernel fault =>
    "kernel " ++ quoted (kernel.getD "<unknown>") ++ " failed: " ++ fault.message
  | overflow => "arithmetic overflow"

end CallError

end ArrayCall
