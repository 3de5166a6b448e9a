/-! The storages that a column of values can have. -/

namespace BinomialLogit
set_option autoImplicit false

inductive Storage where
  | double
  | integer
  | logical
  | character
  deriving DecidableEq

def Storage.name : Storage → String
  | double => "double"
  | integer => "integer"
  | logical => "logical"
  | character => "character"

end BinomialLogit
