import Mathlib.Data.List.TakeWhile
import StakeGuard.Proofs.Overrides

/-!
# Overrides that stop short

The variables of the environment override the numeric entries of a configuration in a fixed order. A
variable is read when its text writes a number in decimal digits that fits the entry (`Text.Writes`, which
is what the reader accepts, `Text.readUnsigned_trim`). Main statement: the first variable that cannot be
read cuts the overrides cleanly, with every entry before it overridden and its own and all others as they
were; where there is none, every entry is overridden (`Configuration.applyOverrides_ends`).
-/

namespace StakeGuard

/-! ## Numbers that texts write -/

namespace Text

/-- The text writes a number below a bound: in decimal digits, after at most one plus sign, and with white
space around it. -/
inductive Writes (bound : Nat) : List Char → Nat → Prop where
  | intro {before sign digits after : List Char} (hbefore : ∀ c ∈ before, isBlank c)
      (hsign : sign = [] ∨ sign = ['+']) (hsome : digits ≠ []) (hdigits : ∀ c ∈ digits, c.isDigit)
      (hafter : ∀ c ∈ after, isBlank c) (hbound : Nat.ofDigitChars 10 digits 0 < bound) :
      Writes bound (before ++ (sign ++ digits) ++ after) (Nat.ofDigitChars 10 digits 0)

theorem Writes.lt {bound n : Nat} {text : List Char} (h : Writes bound text n) : n < bound := by
  cases h
  assumption

theorem digit?_eq (c : Char) : digit? c = if c.isDigit then some (c.toNat - 48) else none := by
  have hdigit : ('0' ≤ c ∧ c ≤ '9') ↔ c.isDigit := by simp [Char.isDigit, Char.le_def]
  simp only [digit?, hdigit]

theorem digitsFrom_eq_some {start n : Nat} {text : List Char} :
    digitsFrom start text = some n ↔
      (∀ c ∈ text, c.isDigit) ∧ Nat.ofDigitChars 10 text start = n := by
  induction text generalizing start with
  | nil => simp [digitsFrom]
  | cons c rest ih =>
    rw [digitsFrom, digit?_eq, List.forall_mem_cons, Nat.ofDigitChars_cons]
    by_cases hc : c.isDigit <;> simp [hc, ih]

theorem digits?_eq_some {n : Nat} {text : List Char} :
    digits? text = some n ↔
      text ≠ [] ∧ (∀ c ∈ text, c.isDigit) ∧ Nat.ofDigitChars 10 text 0 = n := by
  cases text with
  | nil => simp [digits?]
  | cons c rest => simp [digits?, digitsFrom_eq_some]

/-- What is read is one or more digits after at most one plus sign. -/
theorem readUnsigned_eq_some {bound n : Nat} {text : List Char} :
    readUnsigned bound text = some n ↔
      ∃ sign digits, text = sign ++ digits ∧ (sign = [] ∨ sign = ['+']) ∧
        digits? digits = some n ∧ n < bound := by
  unfold readUnsigned
  rw [Option.filter_eq_some_iff, decide_eq_true_iff]
  split
  · next rest =>
    constructor
    · rintro ⟨hread, hn⟩
      exact ⟨['+'], rest, rfl, .inr rfl, hread, hn⟩
    · rintro ⟨sign, digits, htext, rfl | rfl, hread, hn⟩
      · -- a plus sign is no digit
        rw [List.nil_append] at htext
        obtain ⟨-, hdigits, -⟩ := digits?_eq_some.mp hread
        exact absurd (hdigits '+' (htext ▸ List.mem_cons_self)) (by decide)
      · cases htext
        exact ⟨hread, hn⟩
  · next hplus =>
    constructor
    · rintro ⟨hread, hn⟩
      exact ⟨[], text, rfl, .inl rfl, hread, hn⟩
    · rintro ⟨sign, digits, rfl, rfl | rfl, hread, hn⟩
      · exact ⟨hread, hn⟩
      · exact absurd rfl (hplus digits)

/-- A text is what is left when it is trimmed, with white space around it. -/
theorem exists_pad_trim (text : List Char) :
    ∃ before after, text = before ++ trim text ++ after ∧ (∀ c ∈ before, isBlank c) ∧
      ∀ c ∈ after, isBlank c := by
  refine ⟨text.takeWhile isBlank, ((text.dropWhile isBlank).reverse.takeWhile isBlank).reverse, ?_,
    fun c => List.mem_takeWhile_imp, fun c hc => List.mem_takeWhile_imp (List.mem_reverse.mp hc)⟩
  rw [trim, List.append_assoc, ← List.reverse_append, List.takeWhile_append_dropWhile,
    List.reverse_reverse, List.takeWhile_append_dropWhile]

theorem dropWhile_isBlank_append {text : List Char} (hsome : text ≠ [])
    (htext : ∀ c ∈ text, isBlank c = false) (after : List Char) :
    (text ++ after).dropWhile isBlank = text ++ after := by
  cases text with
  | nil => exact absurd rfl hsome
  | cons c rest => simp [htext c List.mem_cons_self]

theorem trim_pad {before text after : List Char} (hbefore : ∀ c ∈ before, isBlank c)
    (hafter : ∀ c ∈ after, isBlank c) (hsome : text ≠ []) (htext : ∀ c ∈ text, isBlank c = false) :
    trim (before ++ text ++ after) = text := by
  have hreverse := dropWhile_isBlank_append (List.reverse_ne_nil_iff.mpr hsome)
    (by simpa using htext) []
  rw [trim, List.append_assoc, List.dropWhile_append_of_pos hbefore,
    dropWhile_isBlank_append hsome htext, List.reverse_append,
    List.dropWhile_append_of_pos (by simpa using hafter)]
  rw [List.append_nil] at hreverse
  rw [hreverse, List.reverse_reverse]

theorem isBlank_eq_false {c : Char} (h : c.isDigit ∨ c = '+') : isBlank c = false := by
  obtain h | rfl := h
  · have hrange := Char.isDigit_iff_toNat.mp h
    unfold isBlank
    grind
  · decide

/-- What is read once white space is trimmed is what the text writes. -/
theorem readUnsigned_trim {bound n : Nat} {text : List Char} :
    readUnsigned bound (trim text) = some n ↔ Writes bound text n := by
  constructor
  · intro hread
    obtain ⟨before, after, htext, hbefore, hafter⟩ := exists_pad_trim text
    obtain ⟨sign, digits, htrim, hsign, hvalue, hn⟩ := readUnsigned_eq_some.mp hread
    obtain ⟨hsome, hdigits, rfl⟩ := digits?_eq_some.mp hvalue
    rw [htext, htrim]
    exact .intro hbefore hsign hsome hdigits hafter hn
  · rintro ⟨hbefore, hsign, hsome, hdigits, hafter, hbound⟩
    rename_i before sign digits after
    have hnonblank : ∀ c ∈ sign ++ digits, isBlank c = false := by
      intro c hc
      obtain hc | hc := List.mem_append.mp hc
      · obtain rfl | rfl := hsign
        · cases hc
        · exact isBlank_eq_false (.inr (List.mem_singleton.mp hc))
      · exact isBlank_eq_false (.inl (hdigits c hc))
    rw [trim_pad hbefore hafter (by simp [hsome]) hnonblank]
    exact readUnsigned_eq_some.mpr
      ⟨sign, digits, rfl, hsign, digits?_eq_some.mpr ⟨hsome, hdigits, rfl⟩, hbound⟩

end Text

/-! ## Entries -/

/-- The numeric entries of a configuration. -/
inductive NumericEntry where
  | network | validatorPool | atLargePool | nodeCap | num | den
deriving DecidableEq

namespace NumericEntry

/-- All of them, in the order in which they are overridden. -/
def all : List NumericEntry := [network, validatorPool, atLargePool, nodeCap, num, den]

/-- The variable that overrides the entry. -/
def key : NumericEntry → String
  | network => "QC_NETWORK_ID"
  | validatorPool => "QC_VDR_ALLOC_SIZE"
  | atLargePool => "QC_AT_LARGE_ALLOC_SIZE"
  | nodeCap => "QC_NODE_MAX_AT_LARGE_BYTES"
  | num => "QC_QUORUM_NUM"
  | den => "QC_QUORUM_DEN"

/-- The numbers below it fit the entry. -/
def bound : NumericEntry → Nat
  | network => 0x100000000
  | validatorPool | atLargePool | nodeCap | num | den => 0x10000000000000000

/-- The number in the entry. -/
def get : NumericEntry → Configuration → Nat
  | network, c => c.network.toNat
  | validatorPool, c => c.throttle.validatorPool.toNat
  | atLargePool, c => c.throttle.atLargePool.toNat
  | nodeCap, c => c.throttle.nodeCap.toNat
  | num, c => c.quorum.num.toNat
  | den, c => c.quorum.den.toNat

/-- The configuration with a number in the entry, where one that does not fit wraps around. -/
def put : NumericEntry → Nat → Configuration → Configuration
  | network, n, c => { c with network := .ofNat n }
  | validatorPool, n, c => { c with throttle.validatorPool := .ofNat n }
  | atLargePool, n, c => { c with throttle.atLargePool := .ofNat n }
  | nodeCap, n, c => { c with throttle.nodeCap := .ofNat n }
  | num, n, c => { c with quorum.num := .ofNat n }
  | den, n, c => { c with quorum.den := .ofNat n }

variable {e e' : NumericEntry} {n : Nat} {c c' : Configuration} {environment : Environment}

theorem get_put_self (h : n < e.bound) : e.get (e.put n c) = n := by
  cases e with
  | network => exact UInt32.toNat_ofNat_of_lt' h
  | validatorPool | atLargePool | nodeCap | num | den => exact UInt64.toNat_ofNat_of_lt' h

theorem get_put_of_ne (h : e' ≠ e) : e'.get (e.put n c) = e'.get c := by
  cases e <;> cases e' <;> first | rfl | exact absurd rfl h

theorem logging_put : (e.put n c).logging = c.logging := by
  cases e <;> rfl

theorem get_logging (logging : Logging) : e.get { c with logging } = e.get c := by
  cases e <;> rfl

/-- The override of the entry. -/
def override (e : NumericEntry) : Configuration.Override := ⟨e.key, e.bound, e.put⟩

/-- The overrides are those of the entries, in the same order. -/
theorem map_override_all : all.map override = Configuration.overrides := rfl

theorem mem_all (e : NumericEntry) : e ∈ all := by
  cases e <;> decide

/-! ## Overridden entries -/

/-- The variable of the entry is not set, or it writes a number that fits. -/
def Readable (environment : Environment) (e : NumericEntry) : Prop :=
  ∀ value, environment e.key = some value → ∃ n, Text.Writes e.bound value.toList n

/-- The entry is what its variable writes, or as before where that is not set. -/
def Overridden (environment : Environment) (c c' : Configuration) (e : NumericEntry) : Prop :=
  match environment e.key with
  | none => e.get c' = e.get c
  | some value => Text.Writes e.bound value.toList (e.get c')

theorem readable_override : e.override.Readable environment ↔ e.Readable environment := by
  simp only [Configuration.Override.Readable, Readable, Configuration.Override.read, override,
    Text.readUnsigned_trim]

/-- What one override does to its own entry. -/
theorem overridden_apply (h : e.Readable environment) (c : Configuration) :
    e.Overridden environment c (e.override.apply environment c) := by
  rw [Overridden]
  cases hvalue : environment e.key with
  | none => exact congrArg e.get (Configuration.Override.apply_of_unset hvalue c)
  | some value =>
    obtain ⟨n, hn⟩ := h value hvalue
    have hread : e.override.read value = some n := Text.readUnsigned_trim.mpr hn
    rw [Configuration.Override.apply_of_read hvalue hread]
    exact (get_put_self hn.lt).symm ▸ hn

/-- An override leaves the configuration as it is, or puts a number into its entry. -/
theorem apply_override (environment : Environment) (e : NumericEntry) (c : Configuration) :
    e.override.apply environment c = c ∨ ∃ n, e.override.apply environment c = e.put n c := by
  rw [Configuration.Override.apply]
  split
  · exact .inl rfl
  · next n _ => exact .inr ⟨n, rfl⟩

theorem get_apply_of_ne (h : e' ≠ e) (c : Configuration) :
    e'.get (e.override.apply environment c) = e'.get c := by
  obtain happly | ⟨n, happly⟩ := apply_override environment e c
  · rw [happly]
  · rw [happly, get_put_of_ne h]

theorem logging_apply (e : NumericEntry) (c : Configuration) :
    (e.override.apply environment c).logging = c.logging := by
  obtain happly | ⟨n, happly⟩ := apply_override environment e c
  · rw [happly]
  · rw [happly, logging_put]

/-- The configuration when the overrides of entries have been applied in a row. -/
def applied (environment : Environment) (entries : List NumericEntry) (c : Configuration) :
    Configuration :=
  (entries.map override).foldl (Configuration.Override.apply environment) c

theorem get_applied_of_notMem {entries : List NumericEntry} (h : e ∉ entries) (c : Configuration) :
    e.get (applied environment entries c) = e.get c := by
  induction entries generalizing c with
  | nil => rfl
  | cons first rest ih =>
    rw [List.mem_cons, not_or] at h
    exact (ih h.2 _).trans (get_apply_of_ne h.1 c)

theorem logging_applied (environment : Environment) (entries : List NumericEntry) (c : Configuration) :
    (applied environment entries c).logging = c.logging := by
  induction entries generalizing c with
  | nil => rfl
  | cons first rest ih => exact (ih _).trans (logging_apply first c)

/-- Entries that can all be read are all overridden, since no override touches the entry of another. -/
theorem overridden_applied {entries : List NumericEntry} (hnodup : entries.Nodup)
    (hreadable : ∀ e ∈ entries, e.Readable environment) (h : e ∈ entries) (c : Configuration) :
    e.Overridden environment c (applied environment entries c) := by
  induction entries generalizing c with
  | nil => cases h
  | cons first rest ih =>
    obtain ⟨hfirst, hrest⟩ := List.nodup_cons.mp hnodup
    rw [List.forall_mem_cons] at hreadable
    obtain rfl | hmem := List.mem_cons.mp h
    · -- the overrides after it leave its entry alone
      have hkept : e.get (applied environment (e :: rest) c) = e.get (e.override.apply environment c) :=
        get_applied_of_notMem hfirst _
      have hown := overridden_apply hreadable.1 c
      rwa [Overridden, ← hkept] at hown
    · have hne : e ≠ first := fun heq => hfirst (heq ▸ hmem)
      have hlater := ih hrest hreadable.2 hmem (first.override.apply environment c)
      rwa [Overridden, get_apply_of_ne hne] at hlater

end NumericEntry

/-! ## All overrides -/

namespace Configuration

variable {environment : Environment}

/-- How overrides leave a configuration. -/
inductive Ends (environment : Environment) (c : Configuration) :
    Option ConfigurationError × Configuration → Prop where
  /-- Every variable could be read. -/
  | overridden {c' : Configuration} (readable : ∀ e : NumericEntry, e.Readable environment)
      (entries : ∀ e : NumericEntry, e.Overridden environment c c')
      (level : c'.logging.level = (environment "QC_LOG_LEVEL").getD c.logging.level)
      (json : c'.logging.json =
        ((environment "QC_JSON_LOGS").map fun value =>
          decide (value.toLower = "true" ∨ value = "1")).getD c.logging.json) :
      Ends environment c (none, c')
  /-- The variable of the entry `k` is the first that could not be read. -/
  | cut {c' : Configuration} {before later : List NumericEntry} {k : NumericEntry} {value : String}
      (order : NumericEntry.all = before ++ k :: later)
      (readable : ∀ e ∈ before, e.Readable environment)
      (set : environment k.key = some value)
      (unreadable : ∀ n, ¬ Text.Writes k.bound value.toList n)
      (entries : ∀ e ∈ before, e.Overridden environment c c')
      (kept : ∀ e ∈ k :: later, e.get c' = e.get c)
      (logging : c'.logging = c.logging) :
      Ends environment c (some (.invalidVariable k.key value), c')

theorem isOn_eq (value : String) : isOn value = decide (value.toLower = "true" ∨ value = "1") := by
  have hlower : value.toLower = value.map Char.toLower := rfl
  rw [isOn, Bool.decide_or, hlower]
  congr 1
  rw [decide_eq_decide, ← String.toList_inj, String.toList_map]
  rfl

theorem jsonFrom_eq (environment : Environment) (json : Bool) :
    jsonFrom environment json =
      ((environment "QC_JSON_LOGS").map fun value =>
        decide (value.toLower = "true" ∨ value = "1")).getD json := by
  rw [jsonFrom]
  cases environment "QC_JSON_LOGS" with
  | none => rfl
  | some value => exact isOn_eq value

open NumericEntry

/-- Where every entry can be read, all are overridden and then the logging. -/
theorem ends_of_readable (hall : ∀ e : NumericEntry, e.Readable environment) (c : Configuration) :
    Ends environment c (c.applyOverrides environment) := by
  have hreadable : ∀ o ∈ overrides, o.Readable environment := by
    rw [← map_override_all, List.forall_mem_map]
    exact fun e _ => readable_override.mpr (hall e)
  have hlogging := logging_applied environment all c
  rw [applyOverrides, applyNumeric_of_readable hreadable, ← map_override_all]
  refine .overridden hall (fun e => ?_) (congrArg (levelFrom environment ·.level) hlogging) ?_
  · rw [Overridden, get_logging]
    exact overridden_applied (by decide) (fun e _ => hall e) (mem_all e) c
  · exact (congrArg (jsonFrom environment ·.json) hlogging).trans (jsonFrom_eq environment _)

/-- Where one cannot, the overrides end there. -/
theorem ends_of_unreadable {before later : List NumericEntry} {k : NumericEntry} {value : String}
    (order : all = before ++ k :: later) (readable : ∀ e ∈ before, e.Readable environment)
    (set : environment k.key = some value) (unreadable : ∀ n, ¬ Text.Writes k.bound value.toList n)
    (c : Configuration) : Ends environment c (c.applyOverrides environment) := by
  have hnodup : (before ++ k :: later).Nodup := order ▸ (by decide : all.Nodup)
  obtain ⟨hbefore, -, hdisjoint⟩ := List.nodup_append.mp hnodup
  have hsplit : overrides = before.map override ++ k.override :: later.map override := by
    rw [← map_override_all, order, List.map_append, List.map_cons]
  have hread : k.override.read value = none :=
    Option.eq_none_iff_forall_ne_some.mpr fun n hn => unreadable n (Text.readUnsigned_trim.mp hn)
  rw [applyOverrides_of_unreadable hsplit
    (List.forall_mem_map.mpr fun e he => readable_override.mpr (readable e he)) set hread]
  exact .cut order readable set unreadable (fun e he => overridden_applied hbefore readable he c)
    (fun e he => get_applied_of_notMem (fun hmem => hdisjoint e hmem e he rfl) c)
    (logging_applied environment before c)

/-- **A failing override is a clean cut.** For any configuration and any environment, either every variable
that is set can be read and decides its entry, or the first that cannot be read is the error, with its text
as it was set: the entries before it are overridden, and it leaves its own, all later ones and the logging
options as they were. -/
theorem applyOverrides_ends (c : Configuration) (environment : Environment) :
    Ends environment c (c.applyOverrides environment) := by
  obtain hreadable | ⟨before, o, later, value, hsplit, hbefore, hvalue, hread⟩ :=
    readable_or_exists_first environment overrides
  · refine ends_of_readable (fun e => readable_override.mp (hreadable _ ?_)) c
    exact map_override_all ▸ List.mem_map_of_mem (mem_all e)
  · rw [← map_override_all] at hsplit
    obtain ⟨before, rest, horder, rfl, hrest⟩ := List.map_eq_append_iff.mp hsplit
    obtain ⟨k, later, rfl, rfl, rfl⟩ := List.map_eq_cons_iff.mp hrest
    refine ends_of_unreadable horder
      (fun e he => readable_override.mp (hbefore _ (List.mem_map_of_mem he))) hvalue (fun n hn => ?_) c
    exact Option.eq_none_iff_forall_ne_some.mp hread n (Text.readUnsigned_trim.mpr hn)

/-- A pool is overridden by the text around a number, and a numerator one past the width ends it there. -/
example :
    let environment : Environment := fun key =>
      if key = "QC_VDR_ALLOC_SIZE" then some " +007\t"
      else if key = "QC_QUORUM_NUM" then some " 18446744073709551616"
      else if key = "QC_QUORUM_DEN" ∨ key = "QC_JSON_LOGS" then some "1"
      else none
    default.applyOverrides environment =
      (some (.invalidVariable "QC_QUORUM_NUM" " 18446744073709551616"),
        { default with throttle.validatorPool := 7 }) := by
  decide +kernel

end Configuration

end StakeGuard
