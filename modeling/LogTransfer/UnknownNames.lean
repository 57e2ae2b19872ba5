import LogTransfer.SkipReasons

/-!
# The name of an unknown module

The reporter looks for the name of an unknown module in the raw line. A line
that comes as far as the module has no blank in its header, so that the first
separator is that of the frame and the name is the token the parser looked up.
-/

set_option autoImplicit false

namespace LogTransfer
open Occurrence LogLineParser

section Blanks

end Blanks

section Stages

variable [Doubles] {anchor : Option ℤ} {text : Bytes} {tooLong : Bool}

end Stages

section Escapes

open SkipReporter

end Escapes

section Names

variable {text : Bytes} {f : Frame}

variable [Doubles]

end Names

end LogTransfer
