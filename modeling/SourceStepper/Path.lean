namespace SourceStepper.Path

def isAbsolute (path : List Char) : Bool := path.head? = some '/'

def needsSlash (path : List Char) : Bool := !path.isEmpty && path.getLast? ≠ some '/'

/-- A path below another one. An absolute path stays as it is. -/
def join (base path : String) : String :=
  if isAbsolute path.toList then path
  else if needsSlash base.toList then base ++ "/" ++ path
  else base ++ path

end SourceStepper.Path
