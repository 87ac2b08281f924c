/-!
# Options

An option is a word behind two dashes or a letter behind one. Its value, if it takes one,
follows as the next argument, behind an equals sign, or directly behind the letter.
Letters of options without a value may stand together.
-/

namespace SchemaIR.CommandLine

/-- An option that a command knows. -/
structure Known where
  name : String
  letter : Option Char := none
  takesValue : Bool := true

/-- An option that was given, with its value; without one the text is empty. -/
abbrev Given := String × String

/-- Whether an argument is an option and not a value. -/
def isOption (arg : String) : Bool :=
  match arg.toList with
  | '-' :: _ :: _ => true
  | _ => false

/-- What an argument says: options, and the name of an option whose value is still to
come. -/
structure Read where
  given : List Given := []
  pending : Option String := none

/-- Reads a word behind two dashes. -/
def readWord (known : List Known) (text : List Char) : Option Read :=
  let name := text.takeWhile (· ≠ '=')
  let value := text.drop name.length
  match known.find? (·.name.toList = name) with
  | none => none
  | some option =>
    match option.takesValue, value with
    | false, [] => some { given := [(option.name, "")] }
    | false, _ => none
    | true, [] => some { pending := option.name }
    | true, _ :: value => some { given := [(option.name, String.ofList value)] }

/-- Reads letters behind one dash. -/
def readLetters (known : List Known) : List Char → Option Read
  | [] => some {}
  | c :: rest =>
    match known.find? (·.letter = some c) with
    | none => none
    | some option =>
      if option.takesValue then
        match rest with
        | [] => some { pending := option.name }
        | '=' :: value => some { given := [(option.name, String.ofList value)] }
        | value => some { given := [(option.name, String.ofList value)] }
      else
        (readLetters known rest).map fun read =>
          { read with given := (option.name, "") :: read.given }

/-- Reads an argument. -/
def readArgument (known : List Known) (arg : String) : Option Read :=
  match arg.toList with
  | '-' :: '-' :: text => readWord known text
  | '-' :: c :: letters => readLetters known (c :: letters)
  | _ => none

/-- Reads arguments that have to be options. Two dashes may end them. -/
def readAll (known : List Known) : List String → Option (List Given)
  | [] => some []
  | arg :: rest =>
    if arg = "--" then if rest.isEmpty then some [] else none
    else
      match readArgument known arg with
      | none => none
      | some ⟨given, none⟩ => (readAll known rest).map (given ++ ·)
      | some ⟨given, some name⟩ =>
        match rest with
        | [] => none
        | value :: rest =>
          if isOption value then none
          else (readAll known rest).map fun more => given ++ (name, value) :: more

/-- Reads arguments that have to be options, each at most once. -/
def readOptions (known : List Known) (args : List String) : Option (List Given) :=
  (readAll known args).filter fun given => decide (given.map Prod.fst).Nodup

end SchemaIR.CommandLine
