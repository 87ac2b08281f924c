import SchemaIR.Program.Builder

/-!
# Sample programs

Small programs that between them touch every part of the lowering: one that is
healthy throughout and three that spread or refer in circles or twice.
-/

namespace SchemaIR.Program.Samples

/-- One type with one field. -/
def minimal : Program :=
  ({} : Program).declareType
    ((TypeDecl.called "Ping").withField (.called "message" (.primitive "string")))

/-- An enumeration of texts with documentation to trim. -/
private def status : EnumDecl :=
  (EnumDecl.called "Status" .string).withDoc "  Account status  "
    |>.withName "Active"
    |>.withName "Inactive"

/-- An enumeration of integers. -/
private def priority : EnumDecl :=
  (EnumDecl.called "Priority" .int).withMember "Low" "1"
    |>.withMember "High" "2"

/-- A type to be spread. -/
private def base : TypeDecl :=
  (TypeDecl.called "Base").withField (.called "id" (.primitive "string"))
    |>.withField (.called "createdAt" (.primitive "datetime"))

/-- A type with a spread, an annotation and one field of each form. -/
private def account : TypeDecl :=
  (TypeDecl.called "Account").withDoc "\n    An account.\n"
    |>.annotated { name := "table", argument := some (.string "accounts") }
    |>.withSpread "Base"
    |>.withField (.called "status" (.custom "Status"))
    |>.withField (.called "scores" ((FieldType.primitive "int").arrayOf 2))
    |>.withField (FieldDecl.called "labels" (.map (.primitive "string"))).asOptional
    |>.withField (.called "owner"
        (.object (({} : InlineObject).withField (.called "email" (.primitive "string")))))

/-- Accounts with their settings. -/
def accounts : Program :=
  ({} : Program).document "\n    # Sample\n\n    Accounts and their settings.\n"
    |>.document "   \n"
    |>.document "  Runtime settings  " "Settings"
    |>.declareEnum status
    |>.declareEnum priority
    |>.declareType base
    |>.declareType account
    |>.declareConst (.called "base" (.object
        [.field "host" (.string "localhost"), .field "port" (.ofInt 8080)]))
    |>.declareConst (.called "cfg" (.object
        [.spreading "base", .field "secure" (.bool true),
         .field "status" (.member "Status" "Active")]))
    |>.declareConst (.called "empty" (.array []))
    |>.declareConst
        (((ConstDecl.called "ratio" (.float "0.5")).typed "float").withDoc "Share of traffic")

/-- Two types that spread each other. -/
def spreadCycle : Program :=
  ({} : Program).declareType
      (((TypeDecl.called "A").withSpread "B").withField (.called "a" (.primitive "string")))
    |>.declareType
      (((TypeDecl.called "B").withSpread "A").withField (.called "b" (.primitive "int")))

/-- An enumeration that reaches another one in two ways. -/
def diamondEnum : Program :=
  ({} : Program).declareEnum ((EnumDecl.called "Root" .string).withName "Shared")
    |>.declareEnum (((EnumDecl.called "Left" .string).withSpread "Root").withName "L")
    |>.declareEnum (((EnumDecl.called "Right" .string).withSpread "Root").withName "R")
    |>.declareEnum
      ((((EnumDecl.called "Both" .string).withSpread "Left").withSpread "Right").withName "Own")

/-- Constants that refer to each other in circles, next to healthy ones. -/
def constantCycle : Program :=
  ({} : Program).declareConst
      (.called "ping" (.object [.spreading "pong", .field "ping" (.bool true)]))
    |>.declareConst (.called "pong" (.object [.spreading "ping", .field "pong" (.bool true)]))
    |>.declareConst (.called "selfish" (.constant "selfish"))
    |>.declareConst (.called "list" (.array [.ofInt 1, .constant "selfish", .ofInt 3]))

end SchemaIR.Program.Samples
