import StakeGuard.Proofs.RefusalCounts
import StakeGuard.Proofs.Soundness

/-!
# Verdicts in the counters

A verifier answers a request with a verdict, and whichever way it is asked it reports that verdict once: a
request that is called off is reported where it is answered, and one that is not is reported by the
verification itself. The requests of a batch may be judged by several workers, in any order; each puts its
verdict in the place of the request (`Batch.settleAll_places`), so that only the order of the reports is
open. Main statement: the counters grow by exactly the verdicts of a run, whatever else is counted in
between, and a batch is judged as its requests are one by one (`Verifier.verdicts_counted`).
-/

namespace StakeGuard

/-- The answer to whether a message is attested. -/
abbrev Verdict := Except AttestationError Unit

namespace Verdict

/-- Whether the verdict is that the message is attested. -/
def isAccepted : Verdict → Bool
  | .ok () => true
  | .error _ => false

/-- The message is refused with an error of a class and a reason. -/
def isRejectedAs (errorClass : ErrorClass) (reason : String) : Verdict → Bool
  | .ok () => false
  | .error e => e.errorClass = errorClass ∧ e.reason = reason

/-- The labels that a refusal is counted under. -/
def labels? : Verdict → Option (String × String)
  | .ok () => none
  | .error e => some (e.errorClass.label, e.reason)

end Verdict

theorem ErrorClass.label_inj {c c' : ErrorClass} : c.label = c'.label ↔ c = c' := by
  cases c <;> cases c' <;> decide

/-! ## Counters -/

/-- The labels that a signal counts a rejection under. -/
def Signal.rejection? : Signal → Option (String × String)
  | .rejected errorClass reason => some (errorClass, reason)
  | .pools .. | .refused .. | .verified => none

/-- The signal is of a verdict. -/
def Signal.isOfVerdict : Signal → Bool
  | .verified | .rejected .. => true
  | .pools .. | .refused .. => false

namespace Metrics

theorem verified_observeAll (m : Metrics) (signals : List Signal) :
    (m.observeAll signals).verified = m.verified + signals.count .verified := by
  induction signals generalizing m with
  | nil => rfl
  | cons signal rest ih =>
    have hrest := ih (m.observe signal)
    rw [List.count_cons]
    cases signal with
    | verified =>
      rw [beq_self_eq_true, if_pos rfl, Nat.add_comm _ 1, ← Nat.add_assoc]
      exact hrest
    | pools | refused | rejected => exact hrest

theorem rejections_observeAll (m : Metrics) (signals : List Signal) :
    (m.observeAll signals).rejections =
      (signals.filterMap Signal.rejection?).foldl increment m.rejections :=
  fold_observeAll (fun _ signal => by cases signal <;> rfl) m signals

/-- All rejections, of whatever class and for whatever reason. -/
def rejected (m : Metrics) : Nat := m.rejections.sum id

/-- Metrics have grown by verdicts: by one for each that accepts, and by one under its class and its reason
for each that does not. -/
structure GrownBy (m m' : Metrics) (verdicts : List Verdict) : Prop where
  verified : m'.verified = m.verified + verdicts.countP Verdict.isAccepted
  rejections : ∀ errorClass reason,
    count m'.rejections (errorClass.label, reason) =
      count m.rejections (errorClass.label, reason) +
        verdicts.countP (Verdict.isRejectedAs errorClass reason)
  all : m'.verified + m'.rejected = m.verified + m.rejected + verdicts.length

end Metrics

namespace Verdict

variable (verdicts : List Verdict)

theorem count_verified :
    (verdicts.map Signal.ofVerdict).count .verified = verdicts.countP isAccepted := by
  rw [List.count, List.countP_map]
  refine List.countP_congr fun verdict _ => ?_
  cases verdict <;> simp [Signal.ofVerdict, isAccepted]

theorem filterMap_rejection? :
    (verdicts.map Signal.ofVerdict).filterMap Signal.rejection? = verdicts.filterMap labels? := by
  rw [List.filterMap_map]
  refine List.filterMap_congr fun verdict _ => ?_
  cases verdict <;> rfl

theorem countP_labels? (errorClass : ErrorClass) (reason : String) :
    (verdicts.filterMap labels?).countP (· = (errorClass.label, reason)) =
      verdicts.countP (isRejectedAs errorClass reason) := by
  rw [List.countP_filterMap]
  refine List.countP_congr fun verdict _ => ?_
  cases verdict <;> simp [labels?, isRejectedAs, ErrorClass.label_inj]

/-- Every verdict is an acceptance or is counted under its labels. -/
theorem countP_isAccepted_add_length :
    verdicts.countP isAccepted + (verdicts.filterMap labels?).length = verdicts.length := by
  rw [List.length_filterMap_eq_countP, List.length_eq_countP_add_countP isAccepted]
  refine congrArg _ (List.countP_congr fun verdict _ => ?_)
  cases verdict <;> simp [isAccepted, labels?]

end Verdict

namespace Metrics

/-- Reports of verdicts, in any order and among other signals, make metrics grow by the verdicts. -/
theorem grownBy_observeAll {verdicts : List Verdict} {log others : List Signal} (m : Metrics)
    (hlog : log.Perm (verdicts.map Signal.ofVerdict ++ others))
    (hothers : ∀ signal ∈ others, signal.isOfVerdict = false) :
    m.GrownBy (m.observeAll log) verdicts := by
  have haccepted : log.count .verified = verdicts.countP Verdict.isAccepted := by
    have hnone : others.count .verified = 0 :=
      List.count_eq_zero_of_not_mem fun hmem => by cases hothers _ hmem
    rw [hlog.count_eq, List.count_append, Verdict.count_verified, hnone, Nat.add_zero]
  have hrejected : (log.filterMap Signal.rejection?).Perm (verdicts.filterMap Verdict.labels?) := by
    have hnone : others.filterMap Signal.rejection? = [] := by
      refine List.filterMap_eq_nil_iff.mpr fun signal hmem => ?_
      cases signal with
      | pools | refused => rfl
      | verified | rejected => cases hothers _ hmem
    have hperm := hlog.filterMap Signal.rejection?
    rwa [List.filterMap_append, Verdict.filterMap_rejection?, hnone, List.append_nil] at hperm
  refine ⟨?_, fun errorClass reason => ?_, ?_⟩
  · rw [verified_observeAll, haccepted]
  · rw [rejections_observeAll,
      foldl_increment (count · _) fun counter key => count_increment counter key _,
      hrejected.countP_eq, Verdict.countP_labels?]
  · have hall := foldl_increment (p := fun _ => true) (Table.sum id) sum_increment m.rejections
      (log.filterMap Signal.rejection?)
    have hlength := Verdict.countP_isAccepted_add_length verdicts
    rw [List.countP_true, hrejected.length_eq] at hall
    rw [rejected, rejections_observeAll, hall, verified_observeAll, haccepted, rejected]
    omega

end Metrics

/-! ## Calls -/

/-- What a verifier is asked for. -/
inductive VerifierCall where
  | verify (item : AttestedMessage) (height : UInt64)
  | verifyUnlessCancelled (item : AttestedMessage) (height : UInt64) (cancellation : Cancellation)
  | verifyBatch (set : CanonicalSet) (items : List AttestedMessage)

/-- How many requests a call makes. -/
def VerifierCall.requests : VerifierCall → Nat
  | verify .. | verifyUnlessCancelled .. => 1
  | verifyBatch _ items => items.length

namespace Verifier

variable (S : SignatureScheme)

/-- The verdicts that a call answers, and what it reports. -/
def ask (v : Verifier) : VerifierCall → List Verdict × List Signal
  | .verify item height =>
    let (verdict, signals) := v.verify S item height
    ([verdict], signals)
  | .verifyUnlessCancelled item height cancellation =>
    let (verdict, signals) := v.verifyUnlessCancelled S item height cancellation
    ([verdict], signals)
  | .verifyBatch set items => v.verifyBatch S set items

/-- The verdicts of a run of calls, each made of a verifier as it was at the time. -/
def verdicts (calls : List (Verifier × VerifierCall)) : List Verdict :=
  calls.flatMap fun (v, call) => (v.ask S call).1

/-- All that the calls of a run report. -/
def signals (calls : List (Verifier × VerifierCall)) : List Signal :=
  calls.flatMap fun (v, call) => (v.ask S call).2

/-- Whichever way it is asked, a verifier reports the verdicts that it answers. -/
theorem reports_ask (v : Verifier) (call : VerifierCall) :
    (v.ask S call).2 = (v.ask S call).1.map .ofVerdict := by
  cases call with
  | verify item height => rfl
  | verifyUnlessCancelled item height cancellation => cases cancellation <;> rfl
  | verifyBatch set items => rfl

theorem length_ask (v : Verifier) (call : VerifierCall) :
    (v.ask S call).1.length = call.requests := by
  cases call with
  | verify item height => rfl
  | verifyUnlessCancelled item height cancellation => cases cancellation <;> rfl
  | verifyBatch set items => exact List.length_map _

/-- The reports of a run are those of its verdicts. -/
theorem signals_eq (calls : List (Verifier × VerifierCall)) :
    signals S calls = (verdicts S calls).map .ofVerdict := by
  rw [signals, verdicts, List.map_flatMap]
  exact congrArg (calls.flatMap ·) (funext fun (v, call) => reports_ask S v call)

theorem length_verdicts (calls : List (Verifier × VerifierCall)) :
    (verdicts S calls).length = (calls.map (·.2.requests)).sum := by
  rw [verdicts, List.length_flatMap]
  exact congrArg (fun f => (calls.map f).sum) (funext fun (v, call) => length_ask S v call)

end Verifier

/-! ## Batches -/

/-- A batch under way: for each request its verdict, once there is one, and what has been reported. -/
structure Batch where
  places : List (Option Verdict)
  reports : List Signal

namespace Batch

variable {judge : AttestedMessage → Verdict} {items : List AttestedMessage} {order : List Nat}

/-- A batch in which nothing has been judged. -/
def waiting (size : Nat) : Batch := ⟨List.replicate size none, []⟩

/-- Some worker takes the request at an index, judges it by itself, reports the verdict and puts it in the
place of the request. -/
def settle (judge : AttestedMessage → Verdict) (items : List AttestedMessage) (b : Batch) (i : Nat) :
    Batch :=
  match items[i]? with
  | none => b
  | some item => ⟨b.places.set i (some (judge item)), b.reports ++ [.ofVerdict (judge item)]⟩

/-- The batch when requests have been settled in some order. -/
def settleAll (judge : AttestedMessage → Verdict) (items : List AttestedMessage) (order : List Nat) :
    Batch :=
  order.foldl (settle judge items) (waiting items.length)

theorem settleAll_concat (order : List Nat) (i : Nat) :
    settleAll judge items (order ++ [i]) = settle judge items (settleAll judge items order) i :=
  List.foldl_append

/-- Whatever has been settled, in whatever order, the places of those requests hold their verdicts, and the
others wait. -/
theorem settleAll_places (order : List Nat) (i : Nat) :
    (settleAll judge items order).places[i]? =
      items[i]?.map fun item => if i ∈ order then some (judge item) else none := by
  induction order using List.reverseRecOn with
  | nil =>
    rw [settleAll, List.foldl_nil, waiting, List.getElem?_replicate]
    by_cases hi : i < items.length <;> simp [hi]
  | append_singleton order j ih =>
    rw [settleAll_concat, settle]
    cases hitem : items[j]? with
    | none =>
      have hne : ∀ item, items[i]? = some item → i ≠ j := by
        rintro item hi rfl
        cases hitem.symm.trans hi
      cases hi : items[i]? with
      | none => simp [ih, hi]
      | some item => simp [ih, hi, hne item hi]
    | some item =>
      simp only [List.getElem?_set]
      split
      · next heq =>
        subst heq
        have hplace : j < (settleAll judge items order).places.length := by
          rw [hitem] at ih
          exact (List.getElem?_eq_some_iff.mp ih).1
        simp [hplace, hitem]
      · next hne => simp [ih, Ne.symm hne]

/-- A batch has reported the verdicts in the order in which they were reached. -/
theorem settleAll_reports (order : List Nat) :
    (settleAll judge items order).reports =
      order.filterMap fun i => items[i]?.map fun item => .ofVerdict (judge item) := by
  induction order using List.reverseRecOn with
  | nil => rfl
  | append_singleton order i ih =>
    rw [settleAll_concat, settle, List.filterMap_append, ← ih]
    cases hitem : items[i]? <;> simp [hitem]

/-- Once every request has been settled, each place holds the verdict of its request, and all of them have
been reported. -/
theorem settleAll_of_perm (horder : order.Perm (List.range items.length)) :
    (settleAll judge items order).places = items.map (some ∘ judge) ∧
      (settleAll judge items order).reports.Perm (items.map (.ofVerdict ∘ judge)) := by
  constructor
  · apply List.ext_getElem?
    intro i
    rw [settleAll_places, List.getElem?_map]
    cases hitem : items[i]? with
    | none => rfl
    | some item =>
      have hmem : i ∈ order :=
        horder.mem_iff.mpr (List.mem_range.mpr (List.getElem?_eq_some_iff.mp hitem).1)
      simp [hmem]
  · have hitems : (List.range items.length).map (items[·]?) = items.map some := by
      apply List.ext_getElem?
      intro i
      by_cases hi : i < items.length <;> simp [hi]
    have hreports : (List.range items.length).filterMap
        (fun i => items[i]?.map fun item => Signal.ofVerdict (judge item)) =
          items.map (.ofVerdict ∘ judge) := by
      have hmapped := congrArg (List.filterMap (Option.map (Signal.ofVerdict ∘ judge))) hitems
      simpa [List.filterMap_map, Function.comp_def] using hmapped
    rw [settleAll_reports, ← hreports]
    exact horder.filterMap _

end Batch

namespace Verifier

variable {S : SignatureScheme} {calls : List (Verifier × VerifierCall)} {log others : List Signal}

/-- **Every verdict is counted once, and a batch is judged request by request.** In any run of calls, each
made of whatever verifier there is at the time, the counters grow by the verdicts that are answered, one for
each request, whatever else is counted in between and in whatever order the reports come in. A batch answers
in the order of its requests what each is judged alone, in whatever order workers settle them. -/
theorem verdicts_counted (m : Metrics) (hlog : log.Perm (signals S calls ++ others))
    (hothers : ∀ signal ∈ others, signal.isOfVerdict = false) :
    m.GrownBy (m.observeAll log) (verdicts S calls) ∧
    (verdicts S calls).length = (calls.map (·.2.requests)).sum ∧
    ∀ (v : Verifier) (set : CanonicalSet) (items : List AttestedMessage),
      let judge := fun item : AttestedMessage =>
        item.attestation.verify S item.message set v.quorum
      let answer := v.verifyBatch S set items
      (∀ i : Nat, answer.1[i]? = items[i]?.map judge) ∧
      ∀ order : List Nat, order.Perm (List.range items.length) →
        (Batch.settleAll judge items order).places = answer.1.map some ∧
        (Batch.settleAll judge items order).reports.Perm answer.2 := by
  refine ⟨?_, length_verdicts S calls, fun v set items => ?_⟩
  · rw [signals_eq] at hlog
    exact m.grownBy_observeAll hlog hothers
  · intro judge answer
    have hverdicts : answer.1 = items.map judge := rfl
    have hreports : answer.2 = (items.map judge).map .ofVerdict := rfl
    rw [hverdicts, hreports, List.map_map, List.map_map]
    exact ⟨fun i => List.getElem?_map, fun order horder => Batch.settleAll_of_perm horder⟩

/-- The only signer while it has the stake, and its message with a payload that it has not signed. -/
def knownBatch : VerifierCall :=
  .verifyBatch ⟨[⟨Bls.generatorKey, 60, [.zero]⟩], 60⟩
    [knownMessage, { knownMessage with message.payload := [7] }]

/-- Calls of every kind on a verifier over the diluted set: in time, called off, too late, too early, and a
batch. -/
def countedCalls : List (Verifier × VerifierCall) :=
  let v : Verifier := ⟨((Registry.make ⟨8, 4, 2⟩).run dilutingCalls).1.oracle, ⟨2, 3⟩⟩
  [(v, .verifyUnlessCancelled knownMessage 7 .never),
    (v, .verifyUnlessCancelled knownMessage 7 .before), (v, .verify knownMessage 9),
    (v, .verify knownMessage 12), (v, knownBatch)]

/-- Requests of every kind, single and in a batch, among other signals: two of six are accepted. -/
theorem verdicts_counted_of_all_kinds :
    let others := [Signal.refused "scope" "cancelled"]
    let m := Metrics.empty.observeAll (others ++ signals knownScheme countedCalls)
    (others ++ signals knownScheme countedCalls).Perm (signals knownScheme countedCalls ++ others) ∧
      (∀ signal ∈ others, signal.isOfVerdict = false) ∧
      m.verified = 2 ∧ m.verified + m.rejected = 6 ∧
      Metrics.count m.rejections ("transient", "cancelled") = 1 ∧
      Metrics.count m.rejections ("integrity", "invalid_signature") = 1 := by
  intro others m
  have hlog : (others ++ signals knownScheme countedCalls).Perm
      (signals knownScheme countedCalls ++ others) := List.perm_append_comm
  have hothers : ∀ signal ∈ others, signal.isOfVerdict = false := by decide
  obtain ⟨hgrown, hlength, -⟩ := verdicts_counted .empty hlog hothers
  have hverdicts : verdicts knownScheme countedCalls =
      [.ok (), .error .cancelled, .error (.insufficientWeight 60 960 2 3),
        .error (.oracle (.heightNotReached 12 9)), .ok (), .error .invalidSignature] := by
    decide +kernel
  rw [hverdicts] at hgrown
  exact ⟨hlog, hothers, hgrown.verified, hgrown.all, hgrown.rejections .transient "cancelled",
    hgrown.rejections .integrity "invalid_signature"⟩

end Verifier

end StakeGuard
