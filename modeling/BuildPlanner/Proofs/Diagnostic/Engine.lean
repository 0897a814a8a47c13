import BuildPlanner.Diagnostic.Engine
import Mathlib.Data.List.Basic

/-!
What an engine records of a list of diagnostics.

While nothing fatal was reported, the verdict on a diagnostic only depends on the policy, so the
history grows by the verdicts on the list. An error leaves its trace in every case: it is recorded,
or it is muted because something fatal was reported before.
-/

namespace BuildPlanner.Diagnostic.Engine

variable {e e' : Engine} {d : Diagnostic} {ds : List Diagnostic}

lemma verdict_congr (he : e.hadFatal = false) (he' : e'.hadFatal = false)
    (h : e.policy = e'.policy) (d : Diagnostic) : e.verdict d = e'.verdict d := by
  simp [verdict, he, he', h]

lemma verdict_of_error (he : e.hadFatal = false) (hd : d.code.severity = .error) :
    e.verdict d = some ⟨d, .error, d.code.isFatal⟩ := by
  simp [verdict, he, hd]

lemma verdict_of_warning (he : e.hadFatal = false) (hd : d.code.severity = .warning) :
    e.verdict d = if e.policy.suppressWarnings then none
      else some ⟨d, if e.policy.warningsAsErrors then .error else .warning, false⟩ := by
  cases hw : e.policy.warningsAsErrors <;> simp [verdict, he, hd, hw]

lemma diagnostic_of_verdict {r : Record} (h : e.verdict d = some r) : r.diagnostic = d := by
  unfold verdict at h
  grind

lemma isFatal_of_verdict {r : Record} (h : e.verdict d = some r) (hd : d.code.isFatal = false) :
    r.isFatal = false := by
  unfold verdict at h
  grind

lemma policy_diagnose (e : Engine) (d : Diagnostic) : (e.diagnose d).policy = e.policy := by
  unfold diagnose
  split <;> rfl

lemma emitted_diagnose (e : Engine) (d : Diagnostic) :
    (e.diagnose d).emitted = e.emitted ++ (e.verdict d).toList := by
  unfold diagnose
  split
  · next h => simp [h]
  · next r h => simp [h, record]

lemma hadFatal_diagnose (he : e.hadFatal = false) (hd : d.code.isFatal = false) :
    (e.diagnose d).hadFatal = false := by
  unfold diagnose
  split
  · exact he
  · next r h =>
    have ht : e.trouble ≠ .fatal := by simpa [hadFatal] using he
    have hr := isFatal_of_verdict h hd
    simp only [hadFatal, record, Trouble.add, hr, ht]
    by_cases hs : r.severity = .error <;> simp [hs, ht]

lemma diagnoseAll_spec (he : e.hadFatal = false) (hds : ∀ d ∈ ds, d.code.isFatal = false) :
    (e.diagnoseAll ds).emitted = e.emitted ++ ds.filterMap e.verdict ∧
      (e.diagnoseAll ds).hadFatal = false ∧ (e.diagnoseAll ds).policy = e.policy := by
  induction ds generalizing e with
  | nil => simpa [diagnoseAll] using he
  | cons d ds ih =>
    have he' := hadFatal_diagnose he (hds d (by simp))
    obtain ⟨hemitted, hfatal, hpolicy⟩ := ih he' fun x hx => hds x (by simp [hx])
    have hpol := policy_diagnose e d
    refine ⟨?_, hfatal, hpolicy.trans hpol⟩
    have hverdict : (e.diagnose d).verdict = e.verdict := funext (verdict_congr he' he hpol)
    calc (e.diagnoseAll (d :: ds)).emitted = ((e.diagnose d).diagnoseAll ds).emitted := rfl
      _ = e.emitted ++ (e.verdict d).toList ++ ds.filterMap e.verdict := by
        rw [hemitted, emitted_diagnose, hverdict]
      _ = e.emitted ++ (d :: ds).filterMap e.verdict := by
        rw [List.filterMap_cons]
        cases e.verdict d <;> simp

lemma filter_filterMap_verdict (p : Diagnostic → Bool) :
    (ds.filterMap e.verdict).filter (p ·.diagnostic) = (ds.filter p).filterMap e.verdict := by
  induction ds with
  | nil => rfl
  | cons d ds ih =>
    cases hverdict : e.verdict d with
    | none => cases hd : p d <;> simp [hverdict, hd, ih]
    | some r =>
      have hr : p r.diagnostic = p d := by rw [diagnostic_of_verdict hverdict]
      cases hd : p d <;> simp [hverdict, hd, hr, ih]

lemma filter_verdict (he : e.hadFatal = false) {c : Code} (hc : c.severity = .error) :
    (ds.filterMap e.verdict).filter (·.diagnostic.code = c) =
      (ds.filter (·.code = c)).map (⟨·, .error, c.isFatal⟩) := by
  rw [filter_filterMap_verdict fun d => d.code = c, List.filterMap_eq_map_iff_forall_eq_some]
  intro d hd
  have hcode : d.code = c := by simpa using (List.mem_filter.1 hd).2
  rw [verdict_of_error he (hcode ▸ hc), hcode]

lemma filterMap_verdict_of_warning (he : e.hadFatal = false) (hplain : e.policy = {})
    (hds : ∀ d ∈ ds, d.code.severity = .warning) :
    ds.filterMap e.verdict = ds.map (⟨·, .warning, false⟩) := by
  rw [List.filterMap_eq_map_iff_forall_eq_some]
  intro d hd
  simp [verdict_of_warning he (hds d hd), hplain]

lemma exists_emitted_diagnoseAll (e : Engine) (ds : List Diagnostic) :
    ∃ new, (e.diagnoseAll ds).emitted = e.emitted ++ new ∧ ∀ r ∈ new, r.diagnostic ∈ ds := by
  induction ds generalizing e with
  | nil => exact ⟨[], (List.append_nil _).symm, by simp⟩
  | cons d ds ih =>
    obtain ⟨new, hnew, hmem⟩ := ih (e.diagnose d)
    have hcons : e.diagnoseAll (d :: ds) = (e.diagnose d).diagnoseAll ds := rfl
    refine ⟨(e.verdict d).toList ++ new, ?_, fun r hr => ?_⟩
    · rw [hcons, hnew, emitted_diagnose, List.append_assoc]
    · rcases List.mem_append.1 hr with hr | hr
      · rw [diagnostic_of_verdict (Option.mem_toList.1 hr)]
        exact List.mem_cons_self
      · exact List.mem_cons_of_mem _ (hmem r hr)

lemma exists_emitted_filter (he : e.hadFatal = false) {c : Code} (hc : c.severity = .error)
    {rest : List Diagnostic} (hds : ∀ d ∈ ds, d.code.isFatal = false)
    (hrest : ∀ d ∈ rest, d.code ≠ c) : ∃ new, (e.diagnoseAll (ds ++ rest)).emitted =
      e.emitted ++ new ∧ new.filter (·.diagnostic.code = c) =
        (ds.filter (·.code = c)).map (⟨·, .error, c.isFatal⟩) := by
  obtain ⟨new, hnew, hmem⟩ := exists_emitted_diagnoseAll (e.diagnoseAll ds) rest
  have happend : e.diagnoseAll (ds ++ rest) = (e.diagnoseAll ds).diagnoseAll rest :=
    List.foldl_append
  refine ⟨ds.filterMap e.verdict ++ new, ?_, ?_⟩
  · rw [happend, hnew, (diagnoseAll_spec he hds).1, List.append_assoc]
  · have hnone : new.filter (·.diagnostic.code = c) = [] := by
      rw [List.filter_eq_nil_iff]
      intro r hr
      simpa using hrest _ (hmem r hr)
    rw [List.filter_append, filter_verdict he hc, hnone, List.append_nil]

/-! ### Errors -/

lemma hadFatal_of_hadError (h : e.hadError = false) : e.hadFatal = false := by
  have htrouble : e.trouble = .none := by simpa [hadError] using h
  simp [hadFatal, htrouble]

lemma hadError_diagnose (h : e.hadError = true) (d : Diagnostic) :
    (e.diagnose d).hadError = true := by
  unfold diagnose
  split
  · exact h
  · next r _ =>
    have ht : e.trouble ≠ .none := by simpa [hadError] using h
    simp only [hadError, record, Trouble.add]
    grind

lemma hadError_diagnose_of_error (hd : d.code.severity = .error) :
    (e.diagnose d).hadError = true := by
  cases he : e.hadFatal with
  | true =>
    refine hadError_diagnose ?_ d
    have ht : e.trouble = .fatal := by simpa [hadFatal] using he
    simp [hadError, ht]
  | false =>
    simp only [diagnose, verdict_of_error he hd, hadError, record, Trouble.add]
    grind

lemma hadError_diagnoseAll (h : e.hadError = true) (ds : List Diagnostic) :
    (e.diagnoseAll ds).hadError = true := by
  induction ds generalizing e with
  | nil => exact h
  | cons d ds ih => exact ih (hadError_diagnose h d)

lemma hadError_of_diagnoseAll (h : (e.diagnoseAll ds).hadError = false) : e.hadError = false := by
  cases he : e.hadError with
  | false => rfl
  | true => cases h.symm.trans (hadError_diagnoseAll he ds)

lemma hadError_diagnoseAll_of_mem (hd : d ∈ ds) (herror : d.code.severity = .error) :
    (e.diagnoseAll ds).hadError = true := by
  induction ds generalizing e with
  | nil => simp at hd
  | cons x ds ih =>
    rcases List.mem_cons.1 hd with rfl | hd
    · exact hadError_diagnoseAll (hadError_diagnose_of_error herror) ds
    · exact ih hd

lemma severity_ne_of_hadError (h : (e.diagnoseAll ds).hadError = false) (hd : d ∈ ds) :
    d.code.severity ≠ .error := by
  intro herror
  rw [hadError_diagnoseAll_of_mem hd herror] at h
  cases h

end BuildPlanner.Diagnostic.Engine

namespace BuildPlanner.Diagnostic

/-- Whether a diagnostic counts as an error. -/
def Policy.countsAsError (p : Policy) (d : Diagnostic) : Bool :=
  match d.code.severity with
  | .error => true
  | .warning => p.warningsAsErrors && !p.suppressWarnings
  | .note => false

namespace Engine

variable {e : Engine} {d : Diagnostic} {ds : List Diagnostic}

lemma hadError_diagnose_iff : (e.diagnose d).hadError = true ↔
    e.hadError = true ∨ e.policy.countsAsError d = true := by
  by_cases he : e.hadError = true
  · exact iff_of_true (hadError_diagnose he d) (.inl he)
  · have htrouble : e.trouble = .none := by simpa [hadError] using he
    simp only [diagnose, verdict, hadFatal, htrouble, Policy.countsAsError]
    cases hs : d.code.severity with
    | error =>
      simp [hadError, record, Trouble.add, htrouble]
      grind
    | warning =>
      cases e.policy.suppressWarnings <;> cases e.policy.warningsAsErrors <;>
        simp [hadError, record, Trouble.add, htrouble]
    | note => simp [hadError, record, Trouble.add, htrouble]

/-- **An engine has had an error exactly if it had one before or was told something that counts as
one.** -/
theorem hadError_diagnoseAll_iff : (e.diagnoseAll ds).hadError = true ↔
    e.hadError = true ∨ ∃ d ∈ ds, e.policy.countsAsError d = true := by
  induction ds generalizing e with
  | nil => simp [diagnoseAll]
  | cons d ds ih =>
    have hcons : e.diagnoseAll (d :: ds) = (e.diagnose d).diagnoseAll ds := rfl
    simp only [hcons, ih, hadError_diagnose_iff, policy_diagnose, List.mem_cons, exists_eq_or_imp,
      or_assoc]

/-- An engine without earlier errors stays without one exactly if its policy counts no report as
one. -/
lemma hadError_diagnoseAll_eq_false_iff (he : e.hadError = false) :
    (e.diagnoseAll ds).hadError = false ↔ ∀ d ∈ ds, e.policy.countsAsError d = false := by
  rw [← Bool.not_eq_true, hadError_diagnoseAll_iff]
  simp [he]

end Engine

/-! ### Policies -/

variable {d : Diagnostic} {ds : List Diagnostic}

lemma Code.severity_eq_warning {c : Code} (h : c.severity ≠ .error) : c.severity = .warning := by
  cases c <;> simp_all [Code.severity]

namespace Policy

lemma severity_ne_of_countsAsError {p : Policy} (h : p.countsAsError d = false) :
    d.code.severity ≠ .error := by
  intro herror
  simp [countsAsError, herror] at h

lemma countsAsError_of_warning {p : Policy} (h : d.code.severity = .warning) :
    p.countsAsError d = false ↔ p.warningsAsErrors = false ∨ p.suppressWarnings = true := by
  cases hp : p.warningsAsErrors <;> simp [countsAsError, h, hp]

lemma countsAsError_plain : ({} : Policy).countsAsError d = false ↔
    d.code.severity ≠ .error := by
  refine ⟨severity_ne_of_countsAsError, fun h => ?_⟩
  exact (countsAsError_of_warning (Code.severity_eq_warning h)).2 (.inl rfl)

/-- A policy counts nothing as an error exactly if the plain one does not either and warnings are
absent or do not count. -/
lemma forall_countsAsError_iff {p : Policy} : (∀ d ∈ ds, p.countsAsError d = false) ↔
    (∀ d ∈ ds, ({} : Policy).countsAsError d = false) ∧
      (p.warningsAsErrors = false ∨ p.suppressWarnings = true ∨ ds = []) := by
  refine ⟨fun h => ⟨fun d hd => ?_, ?_⟩, fun ⟨hplain, hwarnings⟩ d hd => ?_⟩
  · exact countsAsError_plain.2 (severity_ne_of_countsAsError (h d hd))
  · cases ds with
    | nil => exact .inr (.inr rfl)
    | cons d ds =>
      have hd := h d (by simp)
      have hwarning := Code.severity_eq_warning (severity_ne_of_countsAsError hd)
      exact ((countsAsError_of_warning hwarning).1 hd).imp_right .inl
  · have hwarning := Code.severity_eq_warning (severity_ne_of_countsAsError (hplain d hd))
    refine (countsAsError_of_warning hwarning).2 (hwarnings.imp_right fun h => ?_)
    exact h.resolve_right (List.ne_nil_of_mem hd)

end Policy

lemma Engine.emitted_diagnoseAll_eq_iff {e : Engine} (he : e.hadError = false)
    (hplain : e.policy = {}) (hds : ∀ d ∈ ds, d.code.severity ≠ .error) :
    (e.diagnoseAll ds).emitted = e.emitted ↔ ds = [] := by
  have hfatal := hadFatal_of_hadError he
  have hcalm : ∀ d ∈ ds, d.code.isFatal = false := by
    intro d hd
    have hwarning := hds d hd
    cases hd : d.code <;> simp_all [Code.severity, Code.isFatal]
  rw [(diagnoseAll_spec hfatal hcalm).1, List.append_right_eq_self, List.filterMap_eq_nil_iff]
  refine ⟨fun h => List.eq_nil_iff_forall_not_mem.2 fun d hd => ?_, fun h => by simp [h]⟩
  have hwarning := Code.severity_eq_warning (hds d hd)
  have hverdict : e.verdict d = some ⟨d, .warning, false⟩ := by
    simp [verdict, hfatal, hplain, hwarning]
  cases (h d hd).symm.trans hverdict

end BuildPlanner.Diagnostic
