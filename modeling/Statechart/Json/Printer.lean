/-
# Writing JSON

A value is written over several lines: each element and member on a line of its
own, two blanks deeper than its container, a blank behind the colon of a member.
Empty arrays and objects stay on one line.
-/

import Statechart.Json.Basic

namespace Statechart.Json

/-- A new line, `depth` levels deep. -/
def newline (depth : Nat) : List Char :=
  '\n' :: List.replicate (2 * depth) ' '

/-- A spelling between quotes. -/
def quoted (spelling : List Char) : List Char :=
  '\x22' :: spelling ++ ['\x22']

mutual

/-- A value whose container is `depth` levels deep. -/
def print (depth : Nat) : Json → List Char
  | null => ['n', 'u', 'l', 'l']
  | bool true => ['t', 'r', 'u', 'e']
  | bool false => ['f', 'a', 'l', 's', 'e']
  | number spelling => spelling
  | string spelling => quoted spelling
  | array [] => ['[', ']']
  | array (element :: elements) =>
      '[' :: newline (depth + 1) ++ print (depth + 1) element ++
        printElements (depth + 1) elements ++ newline depth ++ [']']
  | object [] => ['\x7b', '\x7d']
  | object ((key, value) :: members) =>
      '\x7b' :: newline (depth + 1) ++ quoted key ++ [':', ' '] ++ print (depth + 1) value ++
        printMembers (depth + 1) members ++ newline depth ++ ['\x7d']

/-- The elements of an array behind the first, each with the comma before it. -/
def printElements (depth : Nat) : List Json → List Char
  | [] => []
  | element :: elements =>
      ',' :: newline depth ++ print depth element ++ printElements depth elements

/-- The members of an object behind the first, each with the comma before it. -/
def printMembers (depth : Nat) : List (List Char × Json) → List Char
  | [] => []
  | (key, value) :: members =>
      ',' :: newline depth ++ quoted key ++ [':', ' '] ++ print depth value ++
        printMembers depth members

end

/-- The text of a value. -/
def pretty (value : Json) : String :=
  String.ofList (print 0 value)

end Statechart.Json
