/-!
# Arguments

The arguments of a subcommand: options, some of them with a value, and paths. Options that are not
known are passed over.
-/

namespace GameMacros

/-- The arguments of a subcommand. -/
structure Arguments where
  paths : List String := []
  settings : Option String := none
  count : Option String := none
  synthesis : Bool := false
  deriving DecidableEq, Repr

namespace Arguments

/-- The arguments with one more in front, which stands alone. -/
def withWord (arguments : Arguments) (word : String) : Arguments :=
  if word = "--synthesis" then { arguments with synthesis := true }
  else if word.startsWith "--" then arguments
  else { arguments with paths := word :: arguments.paths }

/-- Reads arguments. Of several settings files the last one counts, of several counts the first. The
error is an option whose value is missing. -/
def ofList : List String → Except String Arguments
  | [] => .ok {}
  | ["--settings"] => .error "--settings"
  | ["--count"] => .error "--count"
  | "--settings" :: path :: rest =>
    (ofList rest).map fun arguments =>
      { arguments with settings := arguments.settings.or (some path) }
  | "--count" :: count :: rest =>
    (ofList rest).map fun arguments => { arguments with count := some count }
  | word :: rest => (ofList rest).map (·.withWord word)

end Arguments

end GameMacros
