import CssModel.Failure
import CssModel.Warning

/-!
# Construction with warnings

Constructors that may fail and may report warnings run in `Recording`. Warnings that were reported
stay in the log also when the construction fails later.

## Main definitions

* `CssModel.Recording`, `CssModel.Recording.warn`, `CssModel.Recording.reject`

## Main results

* `CssModel.run_bind_of_ok`, `CssModel.run_bind_of_error`: one step after the other, whatever the
  state is that they share
-/

namespace CssModel

/-! ### Steps that may fail, in a state -/

section Steps

variable {ε σ α β : Type} {x : ExceptT ε (StateM σ) α} {f : α → ExceptT ε (StateM σ) β} {s s' : σ}

/-- What follows a step runs with its result, in the state that it leaves. -/
theorem run_bind_of_ok {a : α} (h : x.run.run s = (.ok a, s')) :
    (x >>= f).run.run s = (f a).run.run s' := by
  rw [ExceptT.run_bind, StateT.run_bind, h]
  rfl

/-- What fails is not followed by anything. -/
theorem run_bind_of_error {error : ε} (h : x.run.run s = (.error error, s')) :
    (x >>= f).run.run s = (.error error, s') := by
  rw [ExceptT.run_bind, StateT.run_bind, h]
  rfl

end Steps

/-! ### Constructions -/

/-- A construction that may fail, with a log of warnings. -/
abbrev Recording := ExceptT Failure (StateM WarningLog)

namespace Recording

/-- Puts a warning into the log. -/
def warn (warning : Warning) : Recording PUnit :=
  modifyThe WarningLog (·.record warning)

/-- Fails because of an argument. -/
def reject {α : Type} (fault : ArgumentFault) : Recording α :=
  throw (.invalidArgument fault)

theorem run_pure {α : Type} (a : α) (log : WarningLog) :
    (pure a : Recording α).run.run log = (.ok a, log) := rfl

theorem run_warn (warning : Warning) (log : WarningLog) :
    (warn warning).run.run log = (.ok ⟨⟩, log.record warning) := rfl

theorem run_reject {α : Type} (fault : ArgumentFault) (log : WarningLog) :
    (reject fault : Recording α).run.run log = (.error (.invalidArgument fault), log) := rfl

/-- The outcome of a construction that reports no warnings. -/
def ofExcept {α : Type} (outcome : Except Failure α) : Recording α :=
  ExceptT.mk (pure outcome)

end Recording

end CssModel
