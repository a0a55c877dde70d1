import StakeGuard.Attestation.Quorum
import StakeGuard.Text.Blank
import StakeGuard.Text.Numeral
import StakeGuard.Text.Quoted
import StakeGuard.Throttle.Config

/-!
# Configuration

What a node is told about its network, its pools, its quorum and its logs. Variables of the
environment override single entries one after the other, and the first that cannot be read stops
them; the result is checked at the end.
-/

namespace StakeGuard

/-- The version that the program reports of itself. -/
def version : String := "0.1.0"

/-- What is logged, and whether as JSON. -/
structure Logging where
  level : String
  json : Bool
deriving DecidableEq

/-- Everything a node is told before it starts: its network, the pools of its throttlers, the quorum it
asks for, and its logs. -/
structure Configuration where
  network : UInt32
  throttle : ThrottleConfig
  quorum : Quorum
  logging : Logging
deriving DecidableEq

/-- Why there is no configuration: the file cannot be read, its text is not that of a configuration, a
variable is not a number of its width, or the values fail their check. -/
inductive ConfigurationError where
  | unreadable
  | malformed
  | invalidVariable (key value : String)
  | throttler (cause : ThrottleConfigError)
  | quorum (cause : AttestationError)
deriving DecidableEq

namespace ConfigurationError

/-- The name of an error's variant. -/
def kind : ConfigurationError → String
  | unreadable => "Io"
  | malformed => "Parse"
  | invalidVariable .. => "InvalidEnv"
  | throttler _ => "Throttler"
  | quorum _ => "Quorum"

/-- The text of an error, for those whose text does not depend on the surroundings. -/
def message? : ConfigurationError → Option String
  | unreadable | malformed => none
  | invalidVariable key value => some s!"Invalid value for {key}: {Text.quoted value}"
  | throttler cause => some cause.message
  | quorum cause => some s!"Invalid quorum: {cause.message}"

end ConfigurationError

/-- The variables that a process is started with, looked up by name. Only texts are values: a variable
that holds anything else counts as not set, so it overrides nothing and is no error. -/
abbrev Environment := String → Option String

/-- Plain text from level `info` on. -/
def Logging.default : Logging := ⟨"info", false⟩

instance : Inhabited Logging := ⟨.default⟩

namespace Configuration

/-- The configuration without file and variables. -/
def default : Configuration := ⟨1, .default, .default, .default⟩

instance : Inhabited Configuration := ⟨default⟩

/-- The variable that names the configuration file. -/
def pathVariable : String := "QC_TRUST_CONFIG"

/-- An override of one number: the variable it is read from, the bound that its value must be below, and
what it sets. -/
structure Override where
  key : String
  bound : Nat
  set : Nat → Configuration → Configuration

/-- The numeric overrides, in the order in which they are applied. -/
def overrides : List Override := [
  ⟨"QC_NETWORK_ID", 0x100000000, fun n c => { c with network := .ofNat n }⟩,
  ⟨"QC_VDR_ALLOC_SIZE", Amount.bound, fun n c => { c with throttle.validatorPool := .ofNat n }⟩,
  ⟨"QC_AT_LARGE_ALLOC_SIZE", Amount.bound, fun n c => { c with throttle.atLargePool := .ofNat n }⟩,
  ⟨"QC_NODE_MAX_AT_LARGE_BYTES", Amount.bound, fun n c => { c with throttle.nodeCap := .ofNat n }⟩,
  ⟨"QC_QUORUM_NUM", Amount.bound, fun n c => { c with quorum.num := .ofNat n }⟩,
  ⟨"QC_QUORUM_DEN", Amount.bound, fun n c => { c with quorum.den := .ofNat n }⟩]

/-- The number that the value of a variable writes, white space around it aside. -/
def Override.read (o : Override) (value : String) : Option Nat :=
  Text.readUnsigned o.bound (Text.trim value.toList)

/-- Applies overrides in order up to the first that cannot be read. -/
def applyNumeric (environment : Environment) :
    List Override → Configuration → Option ConfigurationError × Configuration
  | [], c => (none, c)
  | o :: rest, c =>
    match environment o.key with
    | none => applyNumeric environment rest c
    | some value =>
      match o.read value with
      | none => (some (.invalidVariable o.key value), c)
      | some n => applyNumeric environment rest (o.set n c)

/-- The log level, by a variable or as before. Every text is a level. -/
def levelFrom (environment : Environment) (level : String) : String :=
  (environment "QC_LOG_LEVEL").getD level

/-- What switches an option on: `true` in any case, or the digit one. Anything else switches it off. -/
def isOn (value : String) : Bool :=
  value.toList.map Char.toLower = ['t', 'r', 'u', 'e'] || value = "1"

/-- Whether logs are JSON, by a variable or as before. -/
def jsonFrom (environment : Environment) (json : Bool) : Bool :=
  match environment "QC_JSON_LOGS" with
  | none => json
  | some value => isOn value

/-- Applies all overrides. Those before one that cannot be read stay applied. -/
def applyOverrides (c : Configuration) (environment : Environment) :
    Option ConfigurationError × Configuration :=
  match applyNumeric environment overrides c with
  | (some e, c) => (some e, c)
  | (none, c) => (none, { c with
      logging.level := levelFrom environment c.logging.level
      logging.json := jsonFrom environment c.logging.json })

/-- Refuses pools that cannot be accounted for and quorums outside `(0, 1]`. -/
def validate (c : Configuration) : Except ConfigurationError Unit :=
  match c.throttle.validate with
  | .error cause => .error (.throttler cause)
  | .ok () =>
    match c.quorum.validate with
    | .error cause => .error (.quorum cause)
    | .ok () => .ok ()

end Configuration

end StakeGuard
