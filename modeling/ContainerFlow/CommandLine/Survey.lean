/-
ContainerFlow.CommandLine.Survey — the paths that a request looks at.

A request looks at a few paths only.  A survey is what was found at them; it gives a view in which
the request meets with just that, so that nothing else of the file system has to be read.
-/
import ContainerFlow.CommandLine.Request

namespace ContainerFlow.CommandLine

/-- The paths that a request looks at. -/
def Request.paths (r : Request) (homes : Homes) : List Path :=
  match r.repository.expandHome homes with
  | .ok named => [r.repository, named, named.join (.ofText r.workflowFile)]
  | .error _ => [r.repository]

/-- Paths, and what was found at them. -/
abbrev Survey := List (Path × Entry)

namespace Survey

/-- How often the paths go up. -/
def ups (s : Survey) : Nat := (s.flatMap fun found => found.1.parts.filter (· = Path.upPart)).length

/-- Where one stands in the view: deep enough for every way up. -/
def here (s : Survey) : Location := List.replicate (s.ups + 1) "here"

/-- Where parts lead to from a location, if everything on the way is a directory. -/
def locate (place : Location) : List String → Location
  | [] => place
  | part :: rest =>
    if part = Path.upPart then locate place.dropLast rest else locate (place ++ [part]) rest

/-- Where a path leads to. -/
def placeOf (s : Survey) (p : Path) : Location :=
  match p.start with
  | .here => locate s.here p.parts
  | _ => locate [] p.parts

/-- The view in which exactly the surveyed paths lead to something. -/
def view (s : Survey) (homes : Homes) : View where
  tree := s.foldl (fun t found => t.put (s.placeOf found.1) found.2)
    (FileTree.empty.put s.here .directory)
  here := s.here
  homes := homes

end Survey

end ContainerFlow.CommandLine
