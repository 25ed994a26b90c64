import CallAtlas.Resolve.Body

/-!
# The reader as a computation

A part of the reader starts in a state, and leaves another one with an answer. The equations here
say how the two functions of the reader that everything else goes through are put together: a call,
and the targets of an assignment.
-/

set_option autoImplicit false

namespace CallAtlas.Resolve

open Outline (Expr)

variable {α : Type}

/-- The state behind a computation. -/
abbrev M.after (m : M α) (s : State) : State := (m.run s).2

/-- The answer of a computation. -/
abbrev M.answer (m : M α) (s : State) : α := (m.run s).1

theorem run_get_bind (k : State → M α) (s : State) : (get >>= k).run s = (k s).run s := rfl

/-- The call of a function finds out what is called, reads the arguments and is recorded. -/
theorem readExpr_call (func : Expr) (args : List Expr) (typeArgs : List Ty) (line : Nat) :
    readExpr (.call func args typeArgs line) = (do
      setLine line
      let s ← get
      match s.typeOperand? func with
      | some ty =>
        let values ← readExprs args
        pure { ty, origin := (values.getLast?.map Value.origin).getD {} }
      | none =>
        match isBuiltinCall s func with
        | some name =>
          let values ← readExprs args
          pure (builtinValue (← get) name args values)
        | none =>
          let callee ← readCallee s func
          let values ← readExprs args
          setLine line
          finishCall callee typeArgs values) := by
  rw [readExpr]
  rfl

/-- The targets of an assignment are taken one after the other. -/
theorem assignAll_cons (target : Expr) (value : Ty × Origin) (rest : List (Expr × (Ty × Origin))) :
    assignAll ((target, value) :: rest) =
      (sink target >>= flowTo value.2) >>= fun _ => assignAll rest := by
  rw [assignAll, bind_assoc]

end CallAtlas.Resolve
