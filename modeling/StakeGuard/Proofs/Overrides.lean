import StakeGuard.Configuration

/-!
# Overrides as a layer

What a source says about a configuration is a layer of the entries that it sets, laid over a
configuration from below (`Layer.onto`). Main statements: overrides that can all be read lay what the
environment says over the configuration (`Configuration.applyOverrides_of_readable`), and the first that
cannot be read stops them with those before it applied (`Configuration.applyOverrides_of_unreadable`).
-/

namespace StakeGuard

/-- The entries of a configuration that one source sets. -/
structure Layer where
  network : Option UInt32
  validatorPool : Option UInt64
  atLargePool : Option UInt64
  nodeCap : Option UInt64
  num : Option UInt64
  den : Option UInt64
  level : Option String
  json : Option Bool

namespace Layer

/-- What a source says that is not there. -/
def empty : Layer := ⟨none, none, none, none, none, none, none, none⟩

/-- The configuration of the entries that the layer sets, and else those below. -/
def onto (l : Layer) (base : Configuration) : Configuration where
  network := l.network.getD base.network
  throttle :=
    { validatorPool := l.validatorPool.getD base.throttle.validatorPool
      atLargePool := l.atLargePool.getD base.throttle.atLargePool
      nodeCap := l.nodeCap.getD base.throttle.nodeCap }
  quorum := { num := l.num.getD base.quorum.num, den := l.den.getD base.quorum.den }
  logging := { level := l.level.getD base.logging.level, json := l.json.getD base.logging.json }

/-- The number below a bound that a variable writes, white space around it aside. -/
def numberFrom (environment : Environment) (bound : Nat) (key : String) : Option Nat :=
  (environment key).bind fun value => Text.readUnsigned bound (Text.trim value.toList)

end Layer

namespace Configuration

variable {environment : Environment} {value : String}

namespace Override

variable {o : Override}

/-- The variable is not set, or it writes a number that fits. -/
def Readable (environment : Environment) (o : Override) : Prop :=
  ∀ value, environment o.key = some value → ∃ n, o.read value = some n

/-- The configuration with the number that the variable writes, if it writes one. -/
def apply (environment : Environment) (c : Configuration) (o : Override) : Configuration :=
  match Layer.numberFrom environment o.bound o.key with
  | none => c
  | some n => o.set n c

theorem apply_of_unset (h : environment o.key = none) (c : Configuration) :
    o.apply environment c = c := by
  simp [apply, Layer.numberFrom, h]

theorem apply_of_read {n : Nat} (h : environment o.key = some value) (hn : o.read value = some n)
    (c : Configuration) : o.apply environment c = o.set n c := by
  rw [read] at hn
  simp [apply, Layer.numberFrom, h, hn]

end Override

/-! ## Overrides in a row -/

/-- Overrides that can be read are applied, and the others go on from there. -/
theorem applyNumeric_append {before : List Override} (h : ∀ o ∈ before, o.Readable environment)
    (rest : List Override) (c : Configuration) :
    applyNumeric environment (before ++ rest) c =
      applyNumeric environment rest (before.foldl (Override.apply environment) c) := by
  induction before generalizing c with
  | nil => rfl
  | cons o before ih =>
    rw [List.forall_mem_cons] at h
    rw [List.cons_append, applyNumeric, List.foldl_cons]
    cases hvalue : environment o.key with
    | none =>
      rw [Override.apply_of_unset hvalue]
      exact ih h.2 c
    | some value =>
      obtain ⟨n, hn⟩ := h.1 value hvalue
      rw [Override.apply_of_read hvalue hn]
      simp only [hn]
      exact ih h.2 (o.set n c)

theorem applyNumeric_of_readable {os : List Override} (h : ∀ o ∈ os, o.Readable environment)
    (c : Configuration) :
    applyNumeric environment os c = (none, os.foldl (Override.apply environment) c) := by
  have happend := applyNumeric_append h [] c
  rwa [List.append_nil] at happend

theorem applyNumeric_of_unreadable {before after : List Override} {o : Override}
    (h : ∀ o ∈ before, o.Readable environment) (hvalue : environment o.key = some value)
    (hread : o.read value = none) (c : Configuration) :
    applyNumeric environment (before ++ o :: after) c =
      (some (.invalidVariable o.key value), before.foldl (Override.apply environment) c) := by
  simp only [applyNumeric_append h, applyNumeric, hvalue, hread]

/-- Where not all overrides can be read, there is a first that cannot. -/
theorem readable_or_exists_first (environment : Environment) (os : List Override) :
    (∀ o ∈ os, o.Readable environment) ∨
      ∃ before o after value, os = before ++ o :: after ∧ (∀ p ∈ before, p.Readable environment) ∧
        environment o.key = some value ∧ o.read value = none := by
  induction os with
  | nil => exact .inl nofun
  | cons o os ih =>
    by_cases ho : o.Readable environment
    · rcases ih with hall | ⟨before, p, after, value, rfl, hbefore, hp⟩
      · exact .inl (List.forall_mem_cons.mpr ⟨ho, hall⟩)
      · exact .inr ⟨o :: before, p, after, value, rfl, List.forall_mem_cons.mpr ⟨ho, hbefore⟩, hp⟩
    · simp only [Override.Readable, Classical.not_forall, not_exists] at ho
      obtain ⟨value, hvalue, hread⟩ := ho
      exact .inr ⟨[], o, os, value, rfl, nofun, hvalue, Option.eq_none_iff_forall_ne_some.mpr hread⟩

/-! ## All overrides -/

/-- The first that cannot be read is the error. Those before it stay applied, and the logging is not
looked at. -/
theorem applyOverrides_of_unreadable {before after : List Override} {o : Override}
    (hsplit : overrides = before ++ o :: after) (h : ∀ p ∈ before, p.Readable environment)
    (hvalue : environment o.key = some value) (hread : o.read value = none) (c : Configuration) :
    c.applyOverrides environment =
      (some (.invalidVariable o.key value), before.foldl (Override.apply environment) c) := by
  rw [applyOverrides, hsplit, applyNumeric_of_unreadable h hvalue hread]

end Configuration

end StakeGuard
