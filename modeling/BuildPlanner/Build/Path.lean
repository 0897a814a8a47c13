/-!
Paths with slashes as separators.
-/

namespace BuildPlanner.Build

/-- Puts a component behind a path, with a single separator between them. A component that begins
with a slash needs no other separator. -/
def appendPath (path component : String) : String :=
  if path.toList.getLast? = some '/' then
    path ++ String.ofList (component.toList.dropWhile (· = '/'))
  else if path = "" ∨ component.toList.head? = some '/' then path ++ component
  else path ++ "/" ++ component

end BuildPlanner.Build
