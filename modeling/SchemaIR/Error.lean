/-!
# Errors

Everything that can stop the program, by cause. A cause is reported inside the contexts
in which it arose, the outermost first. Texts that explain what is wrong with a document
or with the file system belong to whoever found it and are not part of the cause.
-/

namespace SchemaIR

/-- What the file system refuses. -/
inductive FileFault where
  | notFound
  | isDirectory
  | notDirectory
  | alreadyExists
  /-- The content is no text. -/
  | invalidData
  /-- A name that no file can have. -/
  | invalidName
  | nameTooLong
  | other
deriving DecidableEq, Repr

/-- Why the program stops. -/
inductive Cause where
  /-- A JSON text that is malformed or not of the expected shape. -/
  | json
  /-- A YAML text that is malformed or not of the expected shape. -/
  | yaml
  /-- A settings file that is malformed or not of the expected shape. -/
  | toml
  | file (fault : FileFault)
  /-- A program file whose extension names no format. -/
  | unsupportedFormat (description : String)
  | invalidConfig (reason : String)
deriving DecidableEq, Repr

namespace Cause

/-- The wording of a cause that the program words itself. -/
def message? : Cause → Option String
  | .unsupportedFormat description => some s!"Unsupported program format: {description}"
  | .invalidConfig reason => some s!"Invalid configuration: {reason}"
  | .json | .yaml | .toml | .file _ => none

end Cause

/-- A cause in its contexts. -/
structure Failure where
  contexts : List String
  cause : Cause
deriving DecidableEq, Repr

namespace Failure

/-- A cause on its own. -/
def of (cause : Cause) : Failure := ⟨[], cause⟩

/-- Puts a context around a failure. -/
def inside (failure : Failure) (context : String) : Failure :=
  { failure with contexts := context :: failure.contexts }

/-- All messages from the outermost context to the cause, as far as the program words
them. -/
def messages (failure : Failure) : List String :=
  failure.contexts ++ failure.cause.message?.toList

/-- The outermost message. -/
def headline (failure : Failure) : String := failure.messages.head?.getD ""

/-- The messages in one line. -/
def message (failure : Failure) : String := ": ".intercalate failure.messages

end Failure

end SchemaIR
