import HttpRouting.Text.Basic

/-!
Normal forms of request paths. `squeeze` makes every run of slashes a single one, `trimSlash` takes
one trailing slash off unless the last segment looks like a file name, and `flipSlash` takes the
trailing slash off or adds it.
-/

namespace HttpRouting.Path

/-- Every run of slashes as a single one. -/
def squeezeRuns : Text → Text
  | [] => []
  | c :: r => if c = '/' ∧ r.head? = some '/' then squeezeRuns r else c :: squeezeRuns r

/-- The path with runs of slashes squeezed; the empty path is the root. -/
def squeeze (path : Text) : Text :=
  if path = [] then ['/'] else squeezeRuns path

/-- The text before a trailing slash, if there is one. -/
def beforeSlash? (path : Text) : Option Text :=
  if path.getLast? = some '/' then some path.dropLast else none

/-- What follows the last slash. -/
def lastSegment (path : Text) : Text :=
  (path.reverse.takeWhile (· ≠ '/')).reverse

/-- The path without one trailing slash. The root keeps it, and so does a path whose last segment
has a dot and so looks like a file name. -/
def trimSlash (path : Text) : Text :=
  if path = ['/'] then path
  else match beforeSlash? path with
    | none => path
    | some front => if (lastSegment front).contains '.' then path else front

/-- The path without its trailing slash or, where it has none, with one. The root stays as it is. -/
def flipSlash (path : Text) : Text :=
  match beforeSlash? path with
  | none => path ++ ['/']
  | some [] => path
  | some front => front

end HttpRouting.Path
