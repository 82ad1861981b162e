import AiDaemon.Ledger
import AiDaemon.Text

/-!
# What a caller sends and what it is answered

`CreateSession` takes a map from option names to values of any bus type.  An
option that is absent, or present with another type than the daemon reads it at,
is an option not given.
-/

namespace AiDaemon

open Ledger

/-- What each `try_from` of an option's value gives, `none` where it is of
    another type. The conversions belong to the bus library. -/
structure OptionValue where
  string : Option Text
  u32 : Option UInt32
  u64 : Option UInt64
  f64 : Option Float
  bool : Option Bool
  strings : Option (List Text)

namespace OptionValue

def ofU32 (n : UInt32) : OptionValue := ⟨none, some n, none, none, none, none⟩

def ofStrings (texts : List Text) : OptionValue := ⟨none, none, none, none, none, some texts⟩

end OptionValue

abbrev Options := Table Text OptionValue

namespace Options

variable (options : Options) (name : String)

def string : Option Text := (options.lookup name.toList).bind OptionValue.string

def u32 : Option UInt32 := (options.lookup name.toList).bind OptionValue.u32

def u64 : Option UInt64 := (options.lookup name.toList).bind OptionValue.u64

def f64 : Option Float := (options.lookup name.toList).bind OptionValue.f64

def bool : Option Bool := (options.lookup name.toList).bind OptionValue.bool

def strings : Option (List Text) := (options.lookup name.toList).bind OptionValue.strings

end Options

/-- `zbus::fdo::Error`, the two kinds the daemon answers with. -/
inductive BusError where
  | accessDenied (reason : Text)
  | failed (reason : Text)
deriving DecidableEq, Repr

end AiDaemon
