/-
# Command lines

The tool has two commands:

    dump BLOB [--meta JSON] [--color WHEN]
    diff OLD NEW [--color WHEN]

`--meta` can be written `-m`. Options stand anywhere behind the command, each one at
most once. Their value is the next word or follows an equals sign, behind `-m` also
without one. Behind the word `--` nothing is an option any more. A word that starts
with a hyphen is no value, unless it is the hyphen alone.

`Invocation.ofWords?` reads a command line; anything else than the above is refused.
-/

namespace Statechart.Cli

/-- When output is coloured. -/
inductive ColorChoice
  /-- On a terminal. -/
  | auto
  | always
  | never
  deriving DecidableEq, Repr

namespace ColorChoice

/-- The choice of this name. -/
def ofName? (name : List Char) : Option ColorChoice :=
  if name = "auto".toList then some auto
  else if name = "always".toList then some always
  else if name = "never".toList then some never
  else none

/-- Whether to colour output that goes to a terminal or not. -/
def colored (choice : ColorChoice) (terminal : Bool) : Bool :=
  match choice with
  | auto => terminal
  | always => true
  | never => false

end ColorChoice

/-- What the tool is asked to do. -/
inductive Invocation
  /-- Show a definition, with names if there is metadata for it. -/
  | dump (blob : String) (metadata : Option String) (color : ColorChoice)
  /-- Say what loading `new` in place of `old` means. -/
  | diff (old new : String) (color : ColorChoice)
  deriving DecidableEq, Repr

/-- The options there are. -/
inductive Flag
  | metadata
  | color
  deriving DecidableEq, Repr

/-- What a word of a command line is. -/
inductive Word
  /-- The word behind which nothing is an option. -/
  | separator
  | plain
  /-- An option, and its value if the word holds it. -/
  | option (flag : Flag) (value : Option (List Char))
  | unknown
  deriving DecidableEq, Repr

namespace Word

/-- The value behind an equals sign, if there is one. -/
def attached? (rest : List Char) : Option (List Char) :=
  match rest with
  | '=' :: value => some value
  | _ => none

/-- What a word is. -/
def ofChars (word : List Char) : Word :=
  match word with
  | '-' :: '-' :: [] => separator
  | '-' :: '-' :: long =>
      let name := long.takeWhile (fun c => c != '=')
      let value := attached? (long.dropWhile (fun c => c != '='))
      if name = "meta".toList then option .metadata value
      else if name = "color".toList then option .color value
      else unknown
  | '-' :: 'm' :: [] => option .metadata none
  | '-' :: 'm' :: rest => option .metadata (some ((attached? rest).getD rest))
  | '-' :: _ :: _ => unknown
  | _ => plain

end Word

/-- What has been read of a command line. -/
structure Collected where
  /-- The words that are no options, in order. -/
  operands : List String
  metadata : Option String
  color : Option ColorChoice

namespace Collected

/-- Nothing read yet. -/
def none : Collected := ⟨[], .none, .none⟩

/-- One operand more; it must not be empty. -/
def addOperand? (collected : Collected) (operand : String) : Option Collected :=
  if operand.isEmpty then .none
  else some { collected with operands := collected.operands ++ [operand] }

/-- One option more. It must not be repeated, and its value must be one that the
option can have. -/
def addOption? (collected : Collected) (flag : Flag) (value : List Char) :
    Option Collected :=
  match flag with
  | .metadata =>
      if collected.metadata.isSome || value.isEmpty then .none
      else some { collected with metadata := some (String.ofList value) }
  | .color =>
      if collected.color.isSome then .none
      else (ColorChoice.ofName? value).map fun choice => { collected with color := some choice }

/-- Read the words behind a command that knows these options. -/
def read? (flags : List Flag) : List String → Collected → Option Collected
  | [], collected => some collected
  | word :: words, collected =>
      match Word.ofChars word.toList with
      | .separator => words.foldlM addOperand? collected
      | .plain => do
          let collected ← collected.addOperand? word
          read? flags words collected
      | .unknown => .none
      | .option flag value =>
          if flag ∉ flags then .none
          else
            match value, words with
            | some value, words => do
                let collected ← collected.addOption? flag value
                read? flags words collected
            | .none, next :: words =>
                if Word.ofChars next.toList = .plain then do
                  let collected ← collected.addOption? flag next.toList
                  read? flags words collected
                else .none
            | .none, [] => .none

end Collected

namespace Invocation

/-- What a command line asks for, if it is one. -/
def ofWords? (words : List String) : Option Invocation :=
  match words with
  | "dump" :: words => do
      let collected ← Collected.read? [.metadata, .color] words .none
      match collected.operands with
      | [blob] => some (dump blob collected.metadata (collected.color.getD .auto))
      | _ => none
  | "diff" :: words => do
      let collected ← Collected.read? [.color] words .none
      match collected.operands with
      | [old, new] => some (diff old new (collected.color.getD .auto))
      | _ => none
  | _ => none

/-- The files that are needed. -/
def paths : Invocation → List String
  | dump blob metadata _ => blob :: metadata.toList
  | diff old new _ => [old, new]

end Invocation

end Statechart.Cli
