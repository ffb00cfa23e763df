/-! # Logging

How much the program tells about itself on the console: with every further request for more it
goes one level up, while the code it builds on stays at warnings.
-/

namespace PipeTable

/-- The filter of the console for a number of requests for more. -/
def consoleFilter : Nat → String
  | 0 => "warn"
  | 1 => "warn,tablemode=info"
  | 2 => "warn,tablemode=debug"
  | _ => "warn,tablemode=trace"

end PipeTable
