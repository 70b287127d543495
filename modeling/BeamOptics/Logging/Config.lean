/-!
What is logged and how it looks.
-/

namespace BeamOptics

inductive LogLevel where
  | trace
  | debug
  | info
  | warn
  | error
deriving DecidableEq, Repr

namespace LogLevel

def all : List LogLevel := [trace, debug, info, warn, error]

def name : LogLevel → String
  | trace => "trace"
  | debug => "debug"
  | info => "info"
  | warn => "warn"
  | error => "error"

def weight : LogLevel → Nat
  | trace => 0
  | debug => 1
  | info => 2
  | warn => 3
  | error => 4

end LogLevel

inductive LogFormat where
  | pretty
  | compact
  | full
deriving DecidableEq, Repr

namespace LogFormat

def all : List LogFormat := [pretty, compact, full]

def name : LogFormat → String
  | pretty => "pretty"
  | compact => "compact"
  | full => "full"

end LogFormat

structure LogConfig where
  level : LogLevel := .info
  format : LogFormat := .compact
  filter : Option String := none
  sourceLocation : Bool := false
deriving DecidableEq, Repr

namespace LogConfig

def development : LogConfig := { level := .debug, format := .pretty, sourceLocation := true }

def quiet : LogConfig := { level := .error }

end LogConfig

end BeamOptics
