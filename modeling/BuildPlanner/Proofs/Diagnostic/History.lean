import BuildPlanner.Proofs.Diagnostic.Engine
import Mathlib.Data.List.Induction

/-!
What a new engine has on record after any run of settings, attachments and reports.

A run is a list of actions, and what is true after it is told by the actions and the records alone:
which errors the engine remembers, how a switch is set, whether reports are muted and what a
listener has received. Each of these facts is kept by one action, and so by a run.
-/

namespace BuildPlanner.Diagnostic

/-! ### Actions -/

/-- The switches of a policy. -/
inductive Switch
  | warningsAsErrors
  | suppressWarnings
  | showAfterFatal
deriving DecidableEq, Repr

namespace Policy

def isOn (p : Policy) : Switch → Bool
  | .warningsAsErrors => p.warningsAsErrors
  | .suppressWarnings => p.suppressWarnings
  | .showAfterFatal => p.showAfterFatal

def set (p : Policy) (on : Bool) : Switch → Policy
  | .warningsAsErrors => { p with warningsAsErrors := on }
  | .suppressWarnings => { p with suppressWarnings := on }
  | .showAfterFatal => { p with showAfterFatal := on }

lemma isOn_set (p : Policy) (on : Bool) (s t : Switch) :
    (p.set on s).isOn t = if s = t then on else p.isOn t := by
  cases s <;> cases t <;> rfl

end Policy

inductive Action
  | set (s : Switch) (on : Bool)
  | attach (name : String) (kind : Listener.Kind)
  | diagnose (d : Diagnostic)
deriving DecidableEq, Repr

/-- What an action sets a switch to. -/
def Action.setting? (s : Switch) : Action → Option Bool
  | set t on => if t = s then some on else none
  | attach .. | diagnose _ => none

/-- What a switch was last set to. It is off at first. -/
def lastSetting (s : Switch) (as : List Action) : Bool :=
  (as.reverse.findSome? (Action.setting? s)).getD false

namespace Engine

def step (e : Engine) : Action → Engine
  | .set s on => { e with policy := e.policy.set on s }
  | .attach name kind => e.attach name kind
  | .diagnose d => e.diagnose d

def run (as : List Action) : Engine := as.foldl step {}

/-- Something fatal is on record, and what comes after it is not to be shown. -/
def IsMuted (as : List Action) : Prop :=
  (∃ r ∈ (run as).emitted, r.isFatal = true) ∧ lastSetting .showAfterFatal as = false

variable {e : Engine} {as bs : List Action} {a : Action} {d : Diagnostic}

lemma run_append_singleton (as : List Action) (a : Action) : run (as ++ [a]) = (run as).step a := by
  simp [run]

/-! ### Switches -/

lemma isOn_step (e : Engine) (a : Action) (s : Switch) :
    (e.step a).policy.isOn s = (a.setting? s).getD (e.policy.isOn s) := by
  cases a with
  | set t on =>
    rw [step, Policy.isOn_set, Action.setting?]
    split <;> rfl
  | attach name kind => rfl
  | diagnose d => rw [step, policy_diagnose, Action.setting?, Option.getD_none]

lemma isOn_run (as : List Action) (s : Switch) : (run as).policy.isOn s = lastSetting s as := by
  induction as using List.reverseRecOn with
  | nil => cases s <;> rfl
  | append_singleton as a ih =>
    rw [run_append_singleton, isOn_step, ih, lastSetting, lastSetting, List.reverse_append,
      List.reverse_singleton, List.singleton_append, List.findSome?_cons]
    cases a.setting? s <;> rfl

/-! ### Records -/

/-- What an action adds to the records. -/
def news (e : Engine) : Action → List Record
  | .diagnose d => (e.verdict d).toList
  | .set .. | .attach .. => []

lemma emitted_step (e : Engine) (a : Action) : (e.step a).emitted = e.emitted ++ e.news a := by
  cases a with
  | set s on => exact (List.append_nil _).symm
  | attach name kind => exact (List.append_nil _).symm
  | diagnose d => exact emitted_diagnose e d

lemma emitted_grows (as bs : List Action) : (run as).emitted <+: (run (as ++ bs)).emitted := by
  induction bs using List.reverseRecOn with
  | nil => simp
  | append_singleton bs a ih =>
    rw [← List.append_assoc, run_append_singleton, emitted_step]
    exact ih.trans (List.prefix_append _ _)

/-! ### Errors -/

/-- The engine remembers an error, or a fatal one, exactly if one is on record. -/
structure Remembers (e : Engine) : Prop where
  error : e.hadError = true ↔ ∃ r ∈ e.emitted, r.severity = .error
  fatal : e.hadFatal = true ↔ ∃ r ∈ e.emitted, r.isFatal = true

lemma severity_of_isFatal {r : Record} (h : e.verdict d = some r) (hr : r.isFatal = true) :
    r.severity = .error := by
  unfold verdict at h
  grind

lemma hadFatal_record (e : Engine) (r : Record) :
    (e.record r).hadFatal = true ↔ e.hadFatal = true ∨ r.isFatal = true := by
  simp only [hadFatal, record, Trouble.add]
  grind

lemma hadError_record {r : Record} (hr : r.isFatal = true → r.severity = .error) :
    (e.record r).hadError = true ↔ e.hadError = true ∨ r.severity = .error := by
  simp only [hadError, record, Trouble.add]
  grind

lemma Remembers.record (h : Remembers e) {r : Record}
    (hr : r.isFatal = true → r.severity = .error) : Remembers (e.record r) := by
  have hemitted : (e.record r).emitted = e.emitted ++ [r] := rfl
  refine ⟨?_, ?_⟩
  · rw [hadError_record hr, h.error, hemitted]
    simp [or_and_right, exists_or]
  · rw [hadFatal_record, h.fatal, hemitted]
    simp [or_and_right, exists_or]

lemma Remembers.step (h : Remembers e) (a : Action) : Remembers (e.step a) := by
  cases a with
  | set s on => exact ⟨h.error, h.fatal⟩
  | attach name kind => exact ⟨h.error, h.fatal⟩
  | diagnose d =>
    rw [Engine.step, Engine.diagnose]
    cases hverdict : e.verdict d with
    | none => exact h
    | some r => exact h.record (severity_of_isFatal hverdict)

lemma remembers_run (as : List Action) : Remembers (run as) := by
  refine List.foldlRecOn as step (motive := Remembers) ?_ fun e h a _ => h.step a
  exact ⟨by simp [hadError], by simp [hadFatal]⟩

/-! ### Verdicts -/

lemma isMuted_iff :
    IsMuted as ↔ ((run as).hadFatal && !(run as).policy.showAfterFatal) = true := by
  have hshown : (run as).policy.showAfterFatal = lastSetting .showAfterFatal as :=
    isOn_run as .showAfterFatal
  rw [IsMuted, ← (remembers_run as).fatal, Bool.and_eq_true, hshown, Bool.not_eq_true']

lemma verdict_run_of_isMuted (h : IsMuted as) (d : Diagnostic) : (run as).verdict d = none := by
  rw [verdict, if_pos (isMuted_iff.1 h)]

lemma verdict_run_error (h : ¬ IsMuted as) (hd : d.code.severity = .error) :
    (run as).verdict d = some ⟨d, .error, d.code.isFatal⟩ := by
  rw [verdict, if_neg fun hmuted => h (isMuted_iff.2 hmuted), hd]

lemma verdict_run_warning (h : ¬ IsMuted as) (hd : d.code.severity = .warning) :
    (run as).verdict d =
      if lastSetting .suppressWarnings as then none
      else some ⟨d, if lastSetting .warningsAsErrors as then .error else .warning, false⟩ := by
  rw [verdict, if_neg fun hmuted => h (isMuted_iff.2 hmuted), hd, ← isOn_run, ← isOn_run,
    Policy.isOn, Policy.isOn]
  cases (run as).policy.warningsAsErrors <;> rfl

/-! ### Listeners -/

lemma listener?_deliver (r : Record) (ls : List Listener) (n name : String) :
    (deliver r ls n).find? (·.name = name) = (ls.find? (·.name = name)).map fun l =>
      if name = n then { l with received := l.received ++ [r] } else l := by
  have hname : (fun l : Listener => decide (l.name = name)) ∘
      (fun l => if l.name = n then { l with received := l.received ++ [r] } else l) =
        fun l => decide (l.name = name) := by
    funext l
    by_cases hl : l.name = n <;> simp [hl]
  rw [deliver, List.find?_map, hname]
  refine Option.map_congr fun l hl => ?_
  have hfound : l.name = name := by simpa using List.find?_some hl
  rw [hfound]

lemma listener?_record (e : Engine) (r : Record) (name : String) :
    (e.record r).listener? name = (e.listener? name).map fun l =>
      { l with received := l.received ++ List.replicate (e.audience.count name) r } := by
  have hfold : ∀ (ns : List String) (ls : List Listener),
      (ns.foldl (deliver r) ls).find? (·.name = name) = (ls.find? (·.name = name)).map fun l =>
        { l with received := l.received ++ List.replicate (ns.count name) r } := by
    intro ns
    induction ns with
    | nil => simp
    | cons n ns ih =>
      intro ls
      rw [List.foldl_cons, ih, listener?_deliver, Option.map_map]
      refine Option.map_congr fun l _ => ?_
      by_cases hn : name = n
      · simp [hn, List.replicate_succ]
      · have hne : n ≠ name := fun h => hn h.symm
        simp [hn, List.count_cons_of_ne hne]
  exact hfold e.audience e.listeners

lemma listener?_attach_of_ne {name other : String} (h : other ≠ name) (kind : Listener.Kind) :
    (e.attach name kind).listener? other = e.listener? other := by
  simp only [listener?, attach]
  split
  · rfl
  · have hnew : ([{ name, kind }] : List Listener).find? (·.name = other) = none := by
      simp [h.symm]
    rw [List.find?_append, hnew, Option.or_none]

lemma listener?_attach_of_none {name : String} (h : e.listener? name = none)
    (kind : Listener.Kind) :
    (e.attach name kind).listener? name = some { name, kind } := by
  have hfresh : e.listeners.any (·.name = name) = false := by
    simpa [listener?] using h
  have hnone : e.listeners.find? (·.name = name) = none := h
  simp [listener?, attach, hfresh, List.find?_append, hnone]

section

variable {name : String} {kind : Listener.Kind} {start : Nat}

lemma count_audience_step (ha : ∀ k, a ≠ .attach name k) :
    (e.step a).audience.count name = e.audience.count name := by
  cases a with
  | set s on => rfl
  | attach other k =>
    have hne : other ≠ name := by
      rintro rfl
      exact ha k rfl
    simp [step, attach, List.count_append, List.count_cons_of_ne hne]
  | diagnose d =>
    rw [step, diagnose]
    split <;> rfl

lemma listener?_step (ha : ∀ k, a ≠ .attach name k) :
    (e.step a).listener? name = (e.listener? name).map fun l => { l with
      received := l.received ++ (e.news a).flatMap (List.replicate (e.audience.count name)) } := by
  cases a with
  | set s on => simp [step, news, listener?]
  | attach other k =>
    have hne : name ≠ other := by
      rintro rfl
      exact ha k rfl
    simp [step, news, listener?_attach_of_ne hne]
  | diagnose d =>
    rw [step, diagnose, news]
    cases e.verdict d with
    | none => simp
    | some r => simp [listener?_record]

/-- Nothing with the given name was attached so far. -/
structure Lacks (e : Engine) (name : String) : Prop where
  audience : e.audience.count name = 0
  listener : e.listener? name = none

/-- The listener with the given name is attached once and has what was recorded from the given
position on. -/
structure Hears (e : Engine) (name : String) (kind : Listener.Kind) (start : Nat) : Prop where
  audience : e.audience.count name = 1
  listener : e.listener? name = some ⟨name, kind, e.emitted.drop start⟩
  start_le : start ≤ e.emitted.length

lemma Lacks.step (h : Lacks e name) (ha : ∀ k, a ≠ .attach name k) : Lacks (e.step a) name where
  audience := (count_audience_step ha).trans h.audience
  listener := by rw [listener?_step ha, h.listener, Option.map_none]

lemma Lacks.attach (h : Lacks e name) (kind : Listener.Kind) :
    Hears (e.attach name kind) name kind e.emitted.length where
  audience := by simp [Engine.attach, List.count_append, h.audience]
  listener := by
    rw [listener?_attach_of_none h.listener]
    simp [Engine.attach]
  start_le := Nat.le_refl _

lemma Hears.step (h : Hears e name kind start) (ha : ∀ k, a ≠ .attach name k) :
    Hears (e.step a) name kind start where
  audience := (count_audience_step ha).trans h.audience
  listener := by
    have honce : (e.news a).flatMap (List.replicate 1) = e.news a := List.flatMap_singleton' _
    rw [listener?_step ha, h.listener, h.audience, honce, emitted_step,
      List.drop_append_of_le_length h.start_le, Option.map_some]
  start_le := by
    rw [emitted_step, List.length_append]
    exact Nat.le_trans h.start_le (Nat.le_add_right _ _)

lemma lacks_run (h : ∀ k, .attach name k ∉ as) : Lacks (run as) name := by
  refine List.foldlRecOn as Engine.step (motive := (Lacks · name)) ⟨by simp, rfl⟩ ?_
  refine fun e he a ha => he.step fun k hk => ?_
  exact h k (hk ▸ ha)

lemma hears_run (kind : Listener.Kind) (hbefore : ∀ k, .attach name k ∉ as)
    (hafter : ∀ k, .attach name k ∉ bs) :
    Hears (run (as ++ .attach name kind :: bs)) name kind (run as).emitted.length := by
  have hrun : run (as ++ .attach name kind :: bs) =
      bs.foldl Engine.step ((run as).attach name kind) := by
    simp [run, Engine.step]
  rw [hrun]
  refine List.foldlRecOn bs Engine.step
    (motive := (Hears · name kind (run as).emitted.length)) ((lacks_run hbefore).attach kind)
    fun e he a ha => ?_
  refine he.step fun k hk => ?_
  exact hafter k (hk ▸ ha)

end

/-! ### Runs -/

/-- **What an engine remembers, records and passes on is told by its history.** After any run the
records so far begin all later ones, and the engine remembers an error, or a fatal one, exactly if
one is on record. While a fatal one is on record and not to be shown past, nothing is recorded. Else
every error is, and a warning is unless warnings are suppressed, as an error if it is to be treated
as one; nothing but reports is. A listener that is attached once has received what was recorded
since, in order. -/
theorem run_history (as : List Action) :
    (∀ bs, (run as).emitted <+: (run (as ++ bs)).emitted) ∧
    ((run as).hadError = true ↔ ∃ r ∈ (run as).emitted, r.severity = .error) ∧
    ((run as).hadFatal = true ↔ ∃ r ∈ (run as).emitted, r.isFatal = true) ∧
    (∀ a, (∀ d, a ≠ .diagnose d) → (run (as ++ [a])).emitted = (run as).emitted) ∧
    (∀ d, IsMuted as → (run (as ++ [.diagnose d])).emitted = (run as).emitted) ∧
    (∀ d, ¬ IsMuted as → d.code.severity = .error →
      (run (as ++ [.diagnose d])).emitted =
        (run as).emitted ++ [⟨d, .error, d.code.isFatal⟩]) ∧
    (∀ d, ¬ IsMuted as → d.code.severity = .warning →
      (run (as ++ [.diagnose d])).emitted = (run as).emitted ++
        if lastSetting .suppressWarnings as then []
        else [⟨d, if lastSetting .warningsAsErrors as then .error else .warning, false⟩]) ∧
    ∀ before after name kind, as = before ++ .attach name kind :: after →
      (∀ k, .attach name k ∉ before) → (∀ k, .attach name k ∉ after) →
        ∃ l, (run as).listener? name = some l ∧
          (run as).emitted = (run before).emitted ++ l.received := by
  have hcall : ∀ d, (run (as ++ [.diagnose d])).emitted =
      (run as).emitted ++ ((run as).verdict d).toList := by
    intro d
    rw [run_append_singleton, emitted_step, news]
  refine ⟨emitted_grows as, (remembers_run as).error, (remembers_run as).fatal, fun a ha => ?_,
    fun d hmuted => ?_, fun d hheard hd => ?_, fun d hheard hd => ?_, ?_⟩
  · -- Only reports are recorded.
    cases a with
    | set s on => rw [run_append_singleton, emitted_step, news, List.append_nil]
    | attach name kind => rw [run_append_singleton, emitted_step, news, List.append_nil]
    | diagnose d => exact absurd rfl (ha d)
  · rw [hcall, verdict_run_of_isMuted hmuted, Option.toList_none, List.append_nil]
  · rw [hcall, verdict_run_error hheard hd, Option.toList_some]
  · rw [hcall, verdict_run_warning hheard hd]
    split <;> rfl
  · -- A listener hears what is recorded from when it is attached.
    rintro before after name kind rfl hbefore hafter
    have hhears := hears_run kind hbefore hafter
    refine ⟨_, hhears.listener, ?_⟩
    exact (List.prefix_iff_eq_append.1 (emitted_grows before _)).symm

/-- An alias that is not applied, while warnings are suppressed and when they count as errors, and a
cycle; the listener comes in between. -/
def eventful : List Action := [
  .set .suppressWarnings true,
  .diagnose (.moduleAliasUnapplied "Utils" "LibUtils" "Lib" "lib"),
  .set .warningsAsErrors true,
  .diagnose (.moduleAliasInvalid "Utils" "2Utils" "App"),
  .set .suppressWarnings false,
  .attach "log" .collecting,
  .diagnose (.moduleAliasUnapplied "Utils" "LibUtils" "Lib" "lib"),
  .diagnose (.dependencyCycle ["App", "Lib", "App"])]

/-- The listener misses what came before it, the warning becomes an error, and after the cycle
nothing is recorded. -/
theorem run_history_eventful : IsMuted eventful ∧ ¬ IsMuted (eventful.take 6) ∧
    (∀ d, (run (eventful ++ [.diagnose d])).emitted = (run eventful).emitted) ∧
    (run (eventful.take 7)).emitted = (run (eventful.take 6)).emitted ++
      [⟨.moduleAliasUnapplied "Utils" "LibUtils" "Lib" "lib", .error, false⟩] ∧
    (run (eventful.take 6 ++ [.diagnose (.dependencyCycle ["App"])])).emitted =
      (run (eventful.take 6)).emitted ++ [⟨.dependencyCycle ["App"], .error, true⟩] ∧
    (run (eventful.take 6 ++ [.set .showAfterFatal true])).emitted =
      (run (eventful.take 6)).emitted ∧
    ∃ l, (run eventful).listener? "log" = some l ∧
      (run eventful).emitted = (run (eventful.take 5)).emitted ++ l.received := by
  have hmuted : IsMuted eventful := by
    refine ⟨⟨⟨.dependencyCycle ["App", "Lib", "App"], .error, true⟩, ?_, rfl⟩, rfl⟩
    decide
  have hheard : ¬ IsMuted (eventful.take 6) := by
    rintro ⟨hfatal, -⟩
    revert hfatal
    decide
  obtain ⟨-, -, -, -, hafter, -, -, hlistener⟩ := run_history eventful
  obtain ⟨-, -, -, hquiet, -, herror, hwarning, -⟩ := run_history (eventful.take 6)
  refine ⟨hmuted, hheard, fun d => hafter d hmuted, hwarning _ hheard rfl, herror _ hheard rfl,
    hquiet _ (by simp), ?_⟩
  exact hlistener (eventful.take 5) (eventful.drop 6) "log" .collecting rfl (by simp [eventful])
    (by simp [eventful])

end Engine

end BuildPlanner.Diagnostic
