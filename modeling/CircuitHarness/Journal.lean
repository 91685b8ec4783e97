/-! What the harness reports about its own work, as notices of three levels under a logger's name. -/
namespace CircuitHarness

inductive Severity where
  | debug
  | info
  | warning
deriving DecidableEq

def Severity.name : Severity → String
  | .debug => "DEBUG"
  | .info => "INFO"
  | .warning => "WARNING"

structure Notice where
  severity : Severity
  logger : String
  message : String
deriving DecidableEq

namespace Logger

def package : String := "contractsim_core"
def dispatch : String := package ++ ".core.dispatch"
def simulator : String := package ++ ".core.simulator"
def contextManager : String := package ++ ".core.context_manager"
def cache : String := package ++ ".cache.service"
def build : String := package ++ ".factory.create_simulator"
def options : String := package ++ ".factory.options"

end Logger
end CircuitHarness
