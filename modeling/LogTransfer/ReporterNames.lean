import LogTransfer.Analysis
import LogTransfer.ByteOrder
import LogTransfer.CountMap

/-!
# The names of unknown modules

The reporter lists up to fifty names. A listed name counts its lines, a line
whose name finds no room is only counted, and there is room for every name
until the list is full.
-/

set_option autoImplicit false

namespace LogTransfer

open Tally

section Names

variable {names : List Bytes} {r : SkipReporter} {name : Bytes}

end Names

end LogTransfer
