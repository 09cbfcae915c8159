/-
ContainerFlow.System — what the operating system refuses.

Where a program asks the system for something, the system may say no: it does not start a program
with words that it cannot hand on, it does not let a file be read, it does not take away what lies
in a directory that may not be written to.  And the interpreter of a recursion goes only so deep as
its stack does, which is a matter of who calls.  All this comes from outside.

What is said of paths that are too long, or lead to nothing, is no part of it: that is known from
the paths and the tree alone (`ContainerFlow.FileTree`).
-/
import ContainerFlow.FileTree

namespace ContainerFlow

/-- What the system refuses, and what it says then. -/
structure System where
  /-- Why a program that is there is not started with these words, its own name in front. -/
  startError? : List String → Option String := fun _ => none
  /-- Why the file that a path leads to is not read. -/
  readError? : Path → Option String := fun _ => none
  /-- Why what is at a location is not copied: it may not be read, say. -/
  copyError? : Location → Option String := fun _ => none
  /-- Whether what is at a location cannot be taken away. -/
  holds : Location → Bool := fun _ => false
  /-- How many directories inside one another a copy goes through before the stack is used up. -/
  depth? : Option Nat := none

namespace System

/-- Whether the system lets what these names lead to from `here` be copied, with all on the way. -/
def admits (sys : System) (here : Location) : List String → Bool
  | [] => true
  | name :: rest =>
    (sys.copyError? (here ++ [name])).isNone && sys.admits (here ++ [name]) rest

/-- How many bytes a word of a command may have, written in UTF-8. -/
def wordLimit : Nat := 131071

/-- Why words cannot be handed on to a program: the character U+0000 ends a word for the system, and
a word has to fit in a page of its own. -/
def wordsError? (words : List String) : Option String :=
  if words.any Path.holdsZero then some "embedded null byte"
  else if words.any fun word => wordLimit < word.utf8ByteSize then
    some ("[Errno 7] Argument list too long: " ++ Text.quoted (words.headD ""))
  else none

/-- A system that refuses such words, and nothing else. -/
def withWordLimits : System := { startError? := wordsError? }

end System

end ContainerFlow
