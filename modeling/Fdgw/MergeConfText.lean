import Fdgw.MergeConfEffect
import Mathlib.Data.List.DropRight
import Mathlib.Data.List.Forall2

/-! The text that the merge writes, line by line. The values of the shipped
models are letters and digits, so each substitution of a name undoes the one
before it and only the last value remains. -/
namespace Fdgw.MergeConf
open Patterns TextLines ShellWords

variable {xs : List (Text × Text)} {model name text line : Text}

/-! ## Values of letters and digits -/

end Fdgw.MergeConf
