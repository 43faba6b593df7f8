import Grimoire.Number.Numeral

/-!
# Diagnostics

What a user is told when a spell cannot be read or run. Diagnostics fall into categories that refine
one another; a diagnostic of the lexer or the parser also says where the trouble is.
-/

namespace Grimoire

/-- The kinds of diagnostics, from the general one to the particular ones. -/
inductive Category where
  | general
  | lexical
  | syntactic
  | runtime
  | name
  | type
  | arithmetic
deriving DecidableEq

namespace Category

/-- The name by which a category is known to users. -/
def title : Category → Text
  | .general => "SpellError"
  | .lexical => "SpellLexError"
  | .syntactic => "SpellParseError"
  | .runtime => "SpellRuntimeError"
  | .name => "SpellNameError"
  | .type => "SpellTypeError"
  | .arithmetic => "SpellArithmeticError"

/-- A category and the categories that it refines, from the particular to the general. -/
def lineage : Category → List Category
  | .general => [.general]
  | .lexical => [.lexical, .general]
  | .syntactic => [.syntactic, .general]
  | .runtime => [.runtime, .general]
  | .name => [.name, .runtime, .general]
  | .type => [.type, .runtime, .general]
  | .arithmetic => [.arithmetic, .runtime, .general]

/-- The words in front of the message. Only failures to read a spell have any. -/
def heading : Category → Text
  | .lexical => "Lex error: "
  | .syntactic => "Parse error: "
  | _ => ""

end Category

/-- Where in a spell the trouble is. Either coordinate may be unknown. -/
structure Place where
  line : Option Int
  column : Option Int
deriving DecidableEq

namespace Place

/-- A line or a column as it is shown, if it is known. -/
def coordinate : Option Int → Text
  | some n => Numeral.ofInt n
  | none => "None"

/-- A place as it is shown behind a message. -/
def text (p : Place) : Text :=
  " at line " ++ coordinate p.line ++ ", col " ++ coordinate p.column

end Place

/-- What is told to users about a failure: its kind, a message, and the place, if there is one. -/
structure Diagnostic where
  category : Category
  text : Text
  place : Option Place
deriving DecidableEq

/-- A diagnostic as it is shown: its heading, its text, and its place if it has one. -/
def Diagnostic.render (d : Diagnostic) : Text :=
  d.category.heading ++ d.text ++ (match d.place with
    | some place => place.text
    | none => [])

end Grimoire
