import CallAtlas.Proofs.Resolve.Parts

/-!
# What is recorded beside the calls

Much of what reading does has no effect on the calls: it reports what is wrong, follows values, and
keeps account of allocated types and of addresses. Such a computation is mute: it leaves the
program, the names that are declared and the calls that are recorded as they are.
-/

set_option autoImplicit false

namespace CallAtlas.Resolve

open Outline (Expr)

variable {α β : Type} {s : State}

/-- The state without the line, the problems, and what is recorded of the current function
beside its calls. -/
def State.quiet (s : State) : State :=
  { s with
    diagnostics := []
    frame := { s.frame with file := "", line := 0, facts := { sites := s.frame.facts.sites } } }

/-- From `s` the computation leaves the names and the calls. -/
def MuteAt (s : State) (m : M α) : Prop := (m.after s).quiet = s.quiet

/-- The computation leaves the names and the calls. -/
abbrev Mute (m : M α) : Prop := ∀ s, MuteAt s m

theorem MuteAt.pure (a : α) : MuteAt s (Pure.pure a) := rfl

theorem MuteAt.get {k : State → M α} (h : MuteAt s (k s)) : MuteAt s (get >>= k) := h

theorem MuteAt.bind {m : M α} {k : α → M β} (hm : MuteAt s m) (hk : ∀ a, Mute (k a)) :
    MuteAt s (m >>= k) :=
  (hk (m.answer s) (m.after s)).trans hm

theorem Mute.modify {f : State → State} (h : ∀ s, (f s).quiet = s.quiet) : Mute (modify f) := h

/-- The computation only reports problems. -/
def Reports (m : M α) : Prop := ∀ s, ∃ diagnostics, m.after s = { s with diagnostics }

theorem Reports.mute {m : M α} (h : Reports m) : Mute m := by
  intro s
  obtain ⟨diagnostics, hafter⟩ := h s
  unfold MuteAt
  rw [hafter]
  rfl

theorem Reports.frame {m : M α} (h : Reports m) (s : State) : (m.after s).frame = s.frame := by
  obtain ⟨diagnostics, hafter⟩ := h s
  rw [hafter]

theorem reports_report (problem : Problem) : Reports (report problem) := fun _ => ⟨_, rfl⟩

theorem reports_checkType (ty : Ty) : Reports (checkType ty) := by
  intro s
  induction ty with
  | named pkg name =>
    unfold checkType
    rw [M.after, run_get_bind]
    split
    · exact ⟨_, rfl⟩
    · split
      · exact ⟨_, rfl⟩
      · split
        · split <;> exact ⟨_, rfl⟩
        · exact ⟨_, rfl⟩
  | pointer t ih => exact ih
  | slice t ih => exact ih
  | map t ih => exact ih
  | chan t ih => exact ih
  | _ => exact ⟨_, rfl⟩

theorem reports_checkTypes (types : List Ty) : Reports (checkTypes types) := by
  induction types with
  | nil => exact fun _ => ⟨_, rfl⟩
  | cons ty rest ih =>
    intro s
    obtain ⟨diagnostics, hfirst⟩ := reports_checkType ty s
    obtain ⟨diagnostics', hrest⟩ := ih ((checkType ty).after s)
    exact ⟨diagnostics', hrest.trans (by rw [hfirst])⟩

theorem reports_checkMember (operand : Expr) (ty : Ty) (name : String) :
    Reports (checkMember operand ty name) := by
  intro s
  unfold checkMember
  rw [M.after, run_get_bind]
  split
  · exact ⟨_, rfl⟩
  · split <;> exact ⟨_, rfl⟩

theorem mute_setLine (line : Nat) : Mute (setLine line) := .modify fun _ => rfl

theorem mute_addFlow (source : Origin) (sink : Slot) : Mute (addFlow source sink) := by
  unfold addFlow
  split
  · exact fun _ => .pure _
  · exact .modify fun _ => rfl

theorem mute_funcValue (id : FuncId) : Mute (funcValue id) := fun _ => rfl

theorem mute_allocate (ty : Ty) : Mute (allocate ty) := by
  intro s
  unfold allocate
  split
  · refine .get ?_
    dsimp only
    split
    · exact .pure _
    · split
      · exact .pure _
      · rfl
  · exact .pure _

theorem mute_readIdent (name : String) : Mute (readIdent name) := by
  intro s
  refine .get ?_
  split
  · exact .pure _
  · split
    · exact .pure _
    · split
      · exact mute_funcValue _ s
      · split
        · split <;> exact .pure _
        · split <;> rfl

theorem mute_readQualified (qualifier path name : String) :
    Mute (readQualified qualifier path name) := by
  intro s
  refine .get ?_
  split
  · exact .pure _
  · split
    · exact mute_funcValue _ s
    · split
      · split <;> exact .pure _
      · rfl

theorem mute_memberCallee (operand : Expr) (value : Value) (name : String) :
    Mute (memberCallee operand value name) := by
  intro s
  refine .get ?_
  split
  · exact .pure _
  · exact .pure _
  · exact .pure _
  · exact ((reports_checkMember _ _ _).mute s).bind fun _ _ => .pure _

theorem mute_flowIntoField (ty : Ty) (owner : Option TypeId) (i : Nat) (key : Option String)
    (value : Value) : Mute (flowIntoField ty owner i key value) := by
  intro s
  refine .get ?_
  dsimp only
  split
  · exact .pure _
  · split
    · exact .pure _
    · split
      · exact mute_addFlow _ _ s
      · exact .pure _

theorem mute_fieldSlot (operand : Expr) (name : String) (value : Value) :
    Mute (fieldSlot operand name value) := by
  intro s
  refine .get ?_
  split
  · exact .pure _
  · exact .pure _
  · exact ((reports_checkMember _ _ _).mute s).bind fun _ _ => .pure _

theorem mute_flowTo (origin : Origin) (slot : Option Slot) : Mute (flowTo origin slot) := by
  cases slot with
  | some slot => exact mute_addFlow _ _
  | none => exact fun s => .pure _

theorem mute_returnAll (i : Nat) (results : List (Ty × Origin)) : Mute (returnAll i results) := by
  induction results generalizing i with
  | nil => exact fun s => .pure _
  | cons result rest ih => exact fun s => .get ((mute_addFlow _ _ s).bind fun _ => ih (i + 1))

end CallAtlas.Resolve
