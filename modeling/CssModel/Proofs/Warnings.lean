import CssModel.Proofs.Expression.Reading
import CssModel.Proofs.Term.Signs
import CssModel.Selector.Pseudo
import Mathlib.Data.List.Sort
import Mathlib.Data.String.Basic

/-!
# What is reported

Every constructor reports the same warnings whatever was reported before, so what it adds to a log
is what it leaves in an empty one. The log is a set: what is in it after any number of constructions
is what one of them reports, and neither their order nor their number shows.

## What a constructor reports

`Recording.Reports` says the outcome of a construction and its warnings at once, for all logs. It is
put together along the construction, one rule for each way to go on. Each constructor is read once
in these terms; all that is said of runs follows from there being such a list of warnings at all.

## Main definitions

* `CssModel.Recording.Reports`: the outcome and the warnings, for all logs
* `CssModel.Recording.ReportsIff`: when a constructor succeeds, and when it reports something
* `CssModel.HostCall`, `CssModel.emitted`: runs of constructions, and clearing in between
* `CssModel.Construction.IsSinceClear`: the constructions whose warnings are still there

## Main results

* `CssModel.WarningLog.mem_record`, `CssModel.WarningLog.pairwise_record`: the log is an ordered set
* `CssModel.Construction.mem_perform`: a constructor adds to a log what it reports on its own
* `CssModel.mem_emitted`, `CssModel.pairwise_emitted`
* `CssModel.warnings_exact`
-/

namespace CssModel

/-! ### The log as a set -/

theorem mem_insertText {t text : String} {texts : List String} :
    t ∈ insertText text texts ↔ t = text ∨ t ∈ texts := by
  induction texts with
  | nil => simp [insertText]
  | cons head rest ih =>
    rw [insertText]
    split
    · simp
    · split
      · next heq => simp [heq]
      · rw [List.mem_cons, ih, List.mem_cons, or_left_comm]

theorem pairwise_insertText {texts : List String} (text : String)
    (h : texts.Pairwise (· < ·)) : (insertText text texts).Pairwise (· < ·) := by
  induction texts with
  | nil => exact List.pairwise_singleton _ _
  | cons head rest ih =>
    obtain ⟨hhead, hrest⟩ := List.pairwise_cons.mp h
    rw [insertText]
    split
    · next hlt =>
      refine List.pairwise_cons.mpr ⟨fun t ht => ?_, h⟩
      obtain rfl | ht := List.mem_cons.mp ht
      · exact hlt
      · exact lt_trans hlt (hhead t ht)
    · split
      · exact h
      · next hnotlt hne =>
        have hafter : head < text := lt_of_le_of_ne (not_lt.mp hnotlt) (Ne.symm hne)
        refine List.pairwise_cons.mpr ⟨fun t ht => ?_, ih hrest⟩
        obtain rfl | ht := mem_insertText.mp ht
        · exact hafter
        · exact hhead t ht

namespace WarningLog

@[ext]
theorem ext {a b : WarningLog} (h : a.texts = b.texts) : a = b := by
  cases a
  cases b
  exact congrArg mk h

theorem mem_record {t : String} {log : WarningLog} {warning : Warning} :
    t ∈ (log.record warning).texts ↔ t = warning.text ∨ t ∈ log.texts :=
  mem_insertText

theorem pairwise_record {log : WarningLog} (h : log.texts.Pairwise (· < ·)) (warning : Warning) :
    (log.record warning).texts.Pairwise (· < ·) :=
  pairwise_insertText _ h

theorem mem_foldl_record {t : String} {warnings : List Warning} {log : WarningLog} :
    t ∈ (warnings.foldl record log).texts ↔ t ∈ log.texts ∨ t ∈ warnings.map Warning.text := by
  induction warnings generalizing log with
  | nil => simp
  | cons warning rest ih =>
    rw [List.foldl_cons, ih, mem_record, List.map_cons, List.mem_cons, or_assoc, or_left_comm]

theorem pairwise_foldl_record {log : WarningLog} (h : log.texts.Pairwise (· < ·))
    (warnings : List Warning) : (warnings.foldl record log).texts.Pairwise (· < ·) := by
  induction warnings generalizing log with
  | nil => exact h
  | cons warning rest ih => exact ih (pairwise_record h warning)

end WarningLog

/-! ### What a construction reports -/

namespace Recording

variable {α β : Type}

/-- The outcome of a construction, when nothing has been reported before. -/
def outcome (x : Recording α) : Except Failure α :=
  (x.run.run .empty).1

/-- What a construction reports on its own. -/
def reports (x : Recording α) : List String :=
  (x.run.run .empty).2.texts

/-- The construction has this outcome and reports these warnings, whatever was reported before. -/
def Reports (x : Recording α) (outcome : Except Failure α) (warnings : List Warning) : Prop :=
  ∀ log, x.run.run log = (outcome, warnings.foldl WarningLog.record log)

/-- What has to be given for a construction to succeed, and what it then reports something about.
Its warnings do not depend on those of others. -/
structure ReportsIff (x : Recording α) (given : Prop) (flagged : α → Prop) : Prop where
  succeeds_iff : (∃ a, x.outcome = .ok a) ↔ given
  reports_iff : ∀ a, x.outcome = .ok a → (x.reports ≠ [] ↔ flagged a)
  exists_warnings : ∃ warnings : List Warning, ∀ log,
    (x.run.run log).2 = warnings.foldl WarningLog.record log

namespace Reports

variable {x : Recording α} {f : α → Recording β} {a : α} {outcome : Except Failure α}
  {next : Except Failure β} {warnings rest : List Warning}

theorem pure (a : α) : Reports (Pure.pure a) (.ok a) [] :=
  fun log => run_pure a log

theorem warn (warning : Warning) : Reports (warn warning) (.ok ⟨⟩) [warning] :=
  fun log => run_warn warning log

theorem reject (fault : ArgumentFault) :
    Reports (reject fault : Recording α) (.error (.invalidArgument fault)) [] :=
  fun log => run_reject fault log

theorem bind (h : x.Reports (.ok a) warnings) (hf : (f a).Reports next rest) :
    (x >>= f).Reports next (warnings ++ rest) := by
  intro log
  rw [run_bind_of_ok (h log), hf, List.foldl_append]

theorem bind_of_error {failure : Failure} (h : x.Reports (.error failure) warnings) :
    (x >>= f).Reports (.error failure) warnings :=
  fun log => run_bind_of_error (h log)

/-- A warning under a condition, on the way to the result. -/
theorem warn_if (p : Prop) [Decidable p] (warning : Warning) (a : α) :
    Reports (if p then do Recording.warn warning; Pure.pure a else Pure.pure a) (.ok a)
      (if p then [warning] else []) := by
  split
  · exact (warn warning).bind (pure a)
  · exact pure a

theorem outcome_eq (h : x.Reports outcome warnings) : x.outcome = outcome := by
  rw [Recording.outcome, h]

theorem mem_reports (h : x.Reports outcome warnings) {t : String} :
    t ∈ x.reports ↔ t ∈ warnings.map Warning.text := by
  rw [reports, h, WarningLog.mem_foldl_record]
  exact or_iff_right List.not_mem_nil

theorem reports_ne_nil (h : x.Reports outcome warnings) : x.reports ≠ [] ↔ warnings ≠ [] := by
  have hnil : x.reports = [] ↔ warnings.map Warning.text = [] := by
    simp only [List.eq_nil_iff_forall_not_mem, h.mem_reports]
  exact not_congr (hnil.trans List.map_eq_nil_iff)

theorem reportsIff_of_ok {given : Prop} {flagged : α → Prop} (h : x.Reports (.ok a) warnings)
    (hgiven : given) (hflagged : warnings ≠ [] ↔ flagged a) : x.ReportsIff given flagged := by
  refine ⟨iff_of_true ⟨a, h.outcome_eq⟩ hgiven, fun made hmade => ?_,
    warnings, fun log => congrArg Prod.snd (h log)⟩
  obtain rfl : a = made := Except.ok.inj (h.outcome_eq.symm.trans hmade)
  rw [h.reports_ne_nil, hflagged]

theorem reportsIff_of_error {given : Prop} {flagged : α → Prop} {failure : Failure}
    (h : x.Reports (.error failure) warnings) (hnot : ¬ given) : x.ReportsIff given flagged := by
  have hfails : ∀ made, x.outcome ≠ .ok made := by
    rw [h.outcome_eq]
    exact nofun
  exact ⟨iff_of_false (fun ⟨made, hmade⟩ => hfails made hmade) hnot,
    fun made hmade => absurd hmade (hfails made),
    warnings, fun log => congrArg Prod.snd (h log)⟩

end Reports

end Recording

/-! ### Constructors -/

/-- No pseudo-class has this name, in any letter case. -/
def PseudoClassKind.IsUnknown (name : String) : Prop :=
  ∀ kind : PseudoClassKind, Ascii.lower kind.text ≠ Ascii.lower name

/-- The pseudo-class of this name takes an index. -/
def PseudoClassKind.IsIndexed (name : String) : Prop :=
  ∃ kind : PseudoClassKind, kind.takesIndex = true ∧ Ascii.lower kind.text = Ascii.lower name

/-- No pseudo-element has this name, in any letter case. -/
def PseudoElementKind.IsUnknown (name : String) : Prop :=
  ∀ kind : PseudoElementKind, Ascii.lower kind.text ≠ Ascii.lower name

/-- A name that is looked up among all kinds. -/
theorem find?_sameText_eq_none_iff {κ : Type} {all : List κ} (hall : ∀ kind, kind ∈ all)
    {text : κ → String} {name : String} :
    (all.find? fun kind => Ascii.sameText (text kind) name) = none ↔
      ∀ kind, Ascii.lower (text kind) ≠ Ascii.lower name := by
  simp [List.find?_eq_none, hall, Ascii.sameText]

theorem PseudoElementKind.ofText?_eq_none_iff {name : String} :
    ofText? name = none ↔ IsUnknown name :=
  find?_sameText_eq_none_iff fun kind => by cases kind <;> decide

namespace PseudoClassKind

theorem ofText?_eq_none_iff {name : String} : ofText? name = none ↔ IsUnknown name :=
  find?_sameText_eq_none_iff fun kind => by cases kind <;> decide

theorem ofText?_text_of (kind : PseudoClassKind) : ofText? kind.text = some kind := by
  cases kind <;> decide

/-- There is one kind to a name. -/
theorem ofText?_eq_some_iff {name : String} {kind : PseudoClassKind} :
    ofText? name = some kind ↔ Ascii.lower kind.text = Ascii.lower name := by
  constructor
  · intro h
    simpa [Ascii.sameText] using List.find?_some h
  · intro h
    have hsame : ofText? name = ofText? kind.text := by
      rw [ofText?, ofText?]
      simp only [Ascii.sameText, h]
    rw [hsame, ofText?_text_of]

end PseudoClassKind

section Constructors

open Recording

theorem Expression.reports_make {terms : List Term} (h : terms ≠ []) :
    (make terms).Reports (.ok (ofTerms terms))
      ((problem? terms).map Warning.invalidExpression).toList := by
  have hempty : terms.isEmpty = false := by simpa using h
  rw [make, hempty, if_neg Bool.false_ne_true]
  cases problem? terms with
  | none => exact .pure _
  | some problem => exact (Reports.warn _).bind (.pure _)

theorem Expression.reportsIff_make (terms : List Term) :
    (make terms).ReportsIff (terms ≠ []) (·.valid = false) := by
  obtain rfl | h := eq_or_ne terms []
  · exact (Reports.reject _).reportsIff_of_error (· rfl)
  · exact (reports_make h).reportsIff_of_ok h
      (by simp [ofTerms, problem?, ← Option.ne_none_iff_isSome])

theorem FunctionCall.reports_make {name : String} (h : name ≠ "") (args : List Term) :
    (make name args).Reports (.ok (ofArgs name args))
      (if (ofArgs name args).valid then [] else [.danglingSign name]) := by
  intro log
  rw [run_make h]
  split <;> rfl

theorem FunctionCall.reportsIff_make (name : String) (args : List Term) :
    (make name args).ReportsIff (name ≠ "") (·.valid = false) := by
  obtain rfl | h := eq_or_ne name ""
  · exact (Reports.reject _).reportsIff_of_error (· rfl)
  · exact (reports_make h args).reportsIff_of_ok h (by simp)

namespace PseudoClass

theorem reports_plain {name : String} (h : name ≠ "") :
    (plain name).Reports (.ok (ofName name none))
      (if (PseudoClassKind.ofText? name).isNone then [.unknownPseudoClass name] else []) := by
  have hempty : name.isEmpty = false := by simpa using h
  rw [plain, hempty, if_neg Bool.false_ne_true]
  exact .warn_if _ _ _

theorem reportsIff_plain (name : String) :
    (plain name).ReportsIff (name ≠ "") fun _ => PseudoClassKind.IsUnknown name := by
  obtain rfl | h := eq_or_ne name ""
  · exact (Reports.reject _).reportsIff_of_error (· rfl)
  · exact (reports_plain h).reportsIff_of_ok h (by simp [PseudoClassKind.ofText?_eq_none_iff])

theorem reports_functional {name : String} (h : name ≠ "") (argument : String) :
    (functional name argument).Reports (.ok (ofName name (some argument)))
      ((if (PseudoClassKind.ofText? name).isNone then [.unknownPseudoClass name] else []) ++
        if (ofName name (some argument)).lacksIndex then [.undecodedIndex argument name]
        else []) :=
  (reports_plain h).bind (.warn_if _ _ _)

theorem lacksIndex_ofName_iff {name argument : String} :
    (ofName name (some argument)).lacksIndex = true ↔
      PseudoClassKind.IsIndexed name ∧ Index.ofText? argument = none := by
  simp only [PseudoClassKind.IsIndexed, ← PseudoClassKind.ofText?_eq_some_iff]
  cases hkind : PseudoClassKind.ofText? name with
  | none => simp [ofName, lacksIndex, hkind]
  | some kind =>
    cases htakes : kind.takesIndex with
    | false => simp [ofName, lacksIndex, hkind, htakes]
    | true => simp [ofName, lacksIndex, indexOf?, hkind, htakes]

theorem reportsIff_functional (name argument : String) :
    (functional name argument).ReportsIff (name ≠ "") fun _ =>
      PseudoClassKind.IsUnknown name ∨
        PseudoClassKind.IsIndexed name ∧ Index.ofText? argument = none := by
  obtain rfl | h := eq_or_ne name ""
  · exact (Reports.reject _).bind_of_error.reportsIff_of_error (· rfl)
  · refine (reports_functional h argument).reportsIff_of_ok h ?_
    rw [← PseudoClassKind.ofText?_eq_none_iff, ← lacksIndex_ofName_iff]
    simp [imp_iff_not_or]

end PseudoClass

theorem PseudoElement.reports_make {name : String} (h : name ≠ "") (argument : Option String) :
    (make name argument).Reports (.ok ⟨PseudoElementKind.ofText? name, name, argument⟩)
      (if (PseudoElementKind.ofText? name).isNone then [.unknownPseudoElement name] else []) := by
  have hempty : name.isEmpty = false := by simpa using h
  rw [make, hempty, if_neg Bool.false_ne_true]
  exact .warn_if _ _ _

theorem PseudoElement.reportsIff_make (name : String) (argument : Option String) :
    (make name argument).ReportsIff (name ≠ "") fun _ => PseudoElementKind.IsUnknown name := by
  obtain rfl | h := eq_or_ne name ""
  · exact (Reports.reject _).reportsIff_of_error (· rfl)
  · exact (reports_make h argument).reportsIff_of_ok h
      (by simp [PseudoElementKind.ofText?_eq_none_iff])

end Constructors

/-! ### Runs -/

/-- A constructor that may report something, with its arguments. -/
inductive Construction
  | expression (terms : List Term)
  | call (name : String) (args : List Term)
  | pseudoClass (name : String)
  | functionalPseudoClass (name argument : String)
  | pseudoElement (name : String) (argument : Option String)

namespace Construction

/-- The log after a construction. -/
def perform (log : WarningLog) : Construction → WarningLog
  | .expression terms => ((Expression.make terms).run.run log).2
  | .call name args => ((FunctionCall.make name args).run.run log).2
  | .pseudoClass name => ((PseudoClass.plain name).run.run log).2
  | .functionalPseudoClass name argument =>
    ((PseudoClass.functional name argument).run.run log).2
  | .pseudoElement name argument => ((PseudoElement.make name argument).run.run log).2

/-- What a construction reports on its own, also one that fails. -/
def reports (c : Construction) : List String :=
  (c.perform .empty).texts

theorem exists_warnings (c : Construction) :
    ∃ warnings : List Warning, ∀ log, c.perform log = warnings.foldl WarningLog.record log := by
  cases c with
  | expression terms => exact (Expression.reportsIff_make terms).exists_warnings
  | call name args => exact (FunctionCall.reportsIff_make name args).exists_warnings
  | pseudoClass name => exact (PseudoClass.reportsIff_plain name).exists_warnings
  | functionalPseudoClass name argument =>
    exact (PseudoClass.reportsIff_functional name argument).exists_warnings
  | pseudoElement name argument =>
    exact (PseudoElement.reportsIff_make name argument).exists_warnings

/-- **A construction adds to a log what it reports on its own.** -/
theorem mem_perform {t : String} (c : Construction) {log : WarningLog} :
    t ∈ (c.perform log).texts ↔ t ∈ log.texts ∨ t ∈ c.reports := by
  obtain ⟨warnings, hwarnings⟩ := c.exists_warnings
  have hreports : t ∈ c.reports ↔ t ∈ warnings.map Warning.text := by
    rw [reports, hwarnings, WarningLog.mem_foldl_record]
    exact or_iff_right List.not_mem_nil
  rw [hreports, hwarnings, WarningLog.mem_foldl_record]

theorem pairwise_perform (c : Construction) {log : WarningLog}
    (h : log.texts.Pairwise (· < ·)) : (c.perform log).texts.Pairwise (· < ·) := by
  obtain ⟨warnings, hwarnings⟩ := c.exists_warnings
  rw [hwarnings]
  exact WarningLog.pairwise_foldl_record h warnings

/-- The order of constructions and their number do not show in what is in the log. -/
theorem mem_foldl_perform {t : String} {cs : List Construction} {log : WarningLog} :
    t ∈ (cs.foldl perform log).texts ↔ t ∈ log.texts ∨ ∃ c ∈ cs, t ∈ c.reports := by
  induction cs generalizing log with
  | nil => simp
  | cons c rest ih => rw [List.foldl_cons, ih, mem_perform, List.exists_mem_cons_iff, or_assoc]

theorem pairwise_foldl_perform {cs : List Construction} {log : WarningLog}
    (h : log.texts.Pairwise (· < ·)) : (cs.foldl perform log).texts.Pairwise (· < ·) := by
  induction cs generalizing log with
  | nil => exact h
  | cons c rest ih => exact ih (c.pairwise_perform h)

end Construction

/-- What is done from outside. -/
inductive HostCall
  | construct (c : Construction)
  /-- All warnings are forgotten. -/
  | clear

namespace HostCall

def perform (log : WarningLog) : HostCall → WarningLog
  | .construct c => c.perform log
  | .clear => .empty

theorem foldl_perform_construct (cs : List Construction) (log : WarningLog) :
    (cs.map construct).foldl perform log = cs.foldl Construction.perform log := by
  rw [List.foldl_map]
  rfl

theorem pairwise_perform (call : HostCall) {log : WarningLog} (h : log.texts.Pairwise (· < ·)) :
    (call.perform log).texts.Pairwise (· < ·) := by
  cases call with
  | construct c => exact c.pairwise_perform h
  | clear => exact .nil

end HostCall

/-- The warnings that there are after some calls, where there were none before. -/
def emitted (calls : List HostCall) : List String :=
  (calls.foldl HostCall.perform .empty).texts

/-- The construction is one of the calls, and nothing was cleared after it. -/
def Construction.IsSinceClear (calls : List HostCall) (c : Construction) : Prop :=
  ∃ before after, calls = before ++ .construct c :: after ∧ .clear ∉ after

theorem Construction.isSinceClear_concat {calls : List HostCall} {call : HostCall}
    {c : Construction} : c.IsSinceClear (calls ++ [call]) ↔
      call = .construct c ∨ call ≠ .clear ∧ c.IsSinceClear calls := by
  constructor
  · rintro ⟨before, after, hcalls, hafter⟩
    obtain rfl | ⟨after, last, rfl⟩ := List.eq_nil_or_concat' after
    · exact .inl (List.singleton_inj.mp (List.append_inj' hcalls rfl).2)
    · rw [← List.cons_append, ← List.append_assoc] at hcalls
      obtain ⟨rfl, hlast⟩ := List.append_inj' hcalls rfl
      obtain rfl := List.singleton_inj.mp hlast
      rw [List.mem_append, List.mem_singleton, not_or] at hafter
      exact .inr ⟨Ne.symm hafter.2, before, after, rfl, hafter.1⟩
  · rintro (rfl | ⟨hcall, before, after, rfl, hafter⟩)
    · exact ⟨calls, [], rfl, List.not_mem_nil⟩
    · refine ⟨before, after ++ [call], by simp, ?_⟩
      simp [hafter, hcall.symm]

theorem pairwise_emitted (calls : List HostCall) : (emitted calls).Pairwise (· < ·) := by
  induction calls using List.reverseRecOn with
  | nil => exact .nil
  | append_singleton calls call ih =>
    rw [emitted, List.foldl_concat]
    exact call.pairwise_perform ih

/-- **What there is after a run** is what constructions since the last clearing report. -/
theorem mem_emitted {t : String} {calls : List HostCall} :
    t ∈ emitted calls ↔ ∃ c : Construction, c.IsSinceClear calls ∧ t ∈ c.reports := by
  induction calls using List.reverseRecOn with
  | nil => simp [emitted, WarningLog.empty, Construction.IsSinceClear]
  | append_singleton calls call ih =>
    rw [emitted, List.foldl_concat]
    simp only [Construction.isSinceClear_concat]
    cases call with
    | construct c =>
      rw [HostCall.perform, Construction.mem_perform, ← emitted, ih]
      simp [or_and_right, exists_or, or_comm]
    | clear => simp [HostCall.perform, WarningLog.empty]

/-- **Order and repetition do not matter.** -/
theorem emitted_congr {before after : List HostCall} {cs cs' : List Construction}
    (h : ∀ c, c ∈ cs ↔ c ∈ cs') :
    emitted (before ++ cs.map .construct ++ after) =
      emitted (before ++ cs'.map .construct ++ after) := by
  have hbefore := pairwise_emitted before
  have hlog : cs.foldl Construction.perform (before.foldl HostCall.perform .empty) =
      cs'.foldl Construction.perform (before.foldl HostCall.perform .empty) := by
    refine WarningLog.ext (List.Pairwise.eq_of_mem_iff
      (Construction.pairwise_foldl_perform hbefore)
      (Construction.pairwise_foldl_perform hbefore) fun t => ?_)
    simp only [Construction.mem_foldl_perform, h]
  simp only [emitted, List.foldl_append, HostCall.foldl_perform_construct, hlog]

/-- **What is reported is exactly what was flagged.** Each constructor reports something if its
result cannot be used as it is: an expression or a function that is invalid, a pseudo-class or a
pseudo-element of unknown name, or an index that cannot be read. After any run of constructions,
with any clearing in between, the warnings are those that the constructions since the last clearing
report on their own, in order and each once. Neither the order of these constructions nor their
number matters. -/
theorem warnings_exact :
    (∀ terms, (Expression.make terms).ReportsIff (terms ≠ []) (·.valid = false)) ∧
    (∀ name args, (FunctionCall.make name args).ReportsIff (name ≠ "") (·.valid = false)) ∧
    (∀ name, (PseudoClass.plain name).ReportsIff (name ≠ "") fun _ =>
      PseudoClassKind.IsUnknown name) ∧
    (∀ name argument, (PseudoClass.functional name argument).ReportsIff (name ≠ "") fun _ =>
      PseudoClassKind.IsUnknown name ∨
        PseudoClassKind.IsIndexed name ∧ Index.ofText? argument = none) ∧
    (∀ name argument, (PseudoElement.make name argument).ReportsIff (name ≠ "") fun _ =>
      PseudoElementKind.IsUnknown name) ∧
    (∀ calls, (emitted calls).Pairwise (· < ·) ∧ ∀ t, t ∈ emitted calls ↔
      ∃ c : Construction, c.IsSinceClear calls ∧ t ∈ c.reports) ∧
    ∀ (before after : List HostCall) (cs cs' : List Construction), (∀ c, c ∈ cs ↔ c ∈ cs') →
      emitted (before ++ cs.map .construct ++ after) =
        emitted (before ++ cs'.map .construct ++ after) :=
  ⟨Expression.reportsIff_make, FunctionCall.reportsIff_make, PseudoClass.reportsIff_plain,
    PseudoClass.reportsIff_functional, PseudoElement.reportsIff_make,
    fun calls => ⟨pairwise_emitted calls, fun _ => mem_emitted⟩,
    fun _ _ _ _ h => emitted_congr h⟩

/-- A function of nothing but a minus sign, made twice after the warnings were cleared. -/
theorem warnings_exact_dangling_sign :
    let sign := [Term.ofValue (.delimiter .minus)]
    (∃ f, (FunctionCall.make "f" sign).outcome = .ok f ∧ f.valid = false) ∧
      (FunctionCall.make "f" sign).reports ≠ [] ∧
      emitted ([.construct (.pseudoClass "other"), .clear] ++
        [Construction.call "f" sign, .pseudoElement "half" none, .call "f" sign].map .construct ++
          []) =
        ["[selector] unknown pseudo-element '::half'",
          "[term] dangling '-' in arguments of f(), function ignored"] := by
  intro sign
  obtain ⟨-, hcall, -, -, -, -, hcongr⟩ := warnings_exact
  have hmade : (FunctionCall.make "f" sign).outcome = .ok ⟨"f", sign, false⟩ := rfl
  have hmem : ∀ c, c ∈ [Construction.call "f" sign, .pseudoElement "half" none, .call "f" sign] ↔
      c ∈ [Construction.pseudoElement "half" none, .call "f" sign] := by
    simp [or_comm]
  refine ⟨⟨_, hmade, rfl⟩, ((hcall "f" sign).reports_iff _ hmade).mpr rfl, ?_⟩
  rw [hcongr _ _ _ _ hmem]
  decide

end CssModel
