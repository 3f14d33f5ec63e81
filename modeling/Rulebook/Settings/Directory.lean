import Rulebook.Text.Scan

/-!
# `Rulebook.Settings.Directory` — a directory as a value

A directory is given by its files: the path of each one from there, and its text. A file is found under every
path that leads to it, such as `prod.toml`, `./prod.toml` and `.//prod.toml`.

## Contents
* `Directory`, `Directory.enter?` — directories, and the way into one below
* `Directory.read?` — the text of a file
-/

namespace Rulebook

/-- The paths and the texts of the files in a directory and below it. -/
structure Directory where
  files : List (String × String)

namespace Directory

/-- The parts of a path that lead anywhere: empty ones and single dots stay where they are. -/
def steps (path : String) : List String :=
  (Text.splitText '/' path).filter fun part => part != "" && part != "."

/-- Whether there is a directory at a way of parts: the first ones of some file. -/
def holds (d : Directory) (way : List String) : Bool :=
  d.files.any fun f => way.isPrefixOf (steps f.1).dropLast

/-- The way to a directory, last part first, after one more part. Two dots lead back, but not out of the
    whole directory. -/
def enter? (d : Directory) (way : List String) (part : String) : Option (List String) :=
  if part = ".." then way.tail?
  else if d.holds (part :: way).reverse then some (part :: way)
  else none

/-- The text of the file that a path leads to. A path that starts with a slash leads elsewhere. Of two files at
    one path the later one counts. -/
def read? (d : Directory) (path : String) : Option String := do
  if path.toList.head? = some '/' then none
  let name ← (steps path).getLast?
  let way ← (steps path).dropLast.foldlM d.enter? []
  let file ← d.files.reverse.find? fun f => steps f.1 == way.reverse ++ [name]
  return file.2

end Directory

end Rulebook
