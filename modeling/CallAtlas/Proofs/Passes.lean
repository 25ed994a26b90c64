import Mathlib.Data.List.Basic

/-!
# Passes over a list that may fail

If every step of a pass succeeds, so does the pass, and its answer is the one that the pass without
failures has. A pass that carries a state needs an invariant of the state for its steps to succeed.
-/

set_option autoImplicit false

namespace CallAtlas

variable {α β : Type} {xs : List α}

theorem mapM_eq_some_map {f : α → Option β} {g : α → β} (h : ∀ x ∈ xs, f x = some (g x)) :
    xs.mapM f = some (xs.map g) := by
  induction xs with
  | nil => rfl
  | cons x rest ih =>
    rw [List.mapM_cons, h x List.mem_cons_self, ih fun y hy => h y (List.mem_cons_of_mem _ hy)]
    rfl

/-- Reading the written form of every value gives the values. -/
theorem mapM_map_eq_some {read : β → Option α} {write : α → β} (xs : List α)
    (h : ∀ x, read (write x) = some x) : (xs.map write).mapM read = some xs := by
  have hread : xs.mapM (read ∘ write) = some (xs.map id) := mapM_eq_some_map fun x _ => h x
  rw [List.mapM_map]
  rwa [List.map_id] at hread

/-- Values that can all be written, each in a form that can be read, come back in order, and none is
left out. -/
theorem mapM_filterMap_eq_some {write : α → Option β} {read : β → Option α}
    (h : ∀ x ∈ xs, ∃ y, write x = some y ∧ read y = some x) :
    (xs.filterMap write).mapM read = some xs ∧ (xs.filterMap write).length = xs.length := by
  induction xs with
  | nil => exact ⟨rfl, rfl⟩
  | cons x rest ih =>
    obtain ⟨y, hwrite, hread⟩ := h x List.mem_cons_self
    obtain ⟨hrest, hlength⟩ := ih fun z hz => h z (List.mem_cons_of_mem _ hz)
    rw [List.filterMap_cons_some hwrite]
    refine ⟨?_, congrArg (· + 1) hlength⟩
    rw [List.mapM_cons, hread, hrest]
    rfl

theorem flatMapM_eq_some {f : α → Option (List β)} {g : α → List β}
    (h : ∀ x ∈ xs, f x = some (g x)) : xs.flatMapM f = some (xs.flatMap g) := by
  induction xs with
  | nil => rfl
  | cons x rest ih =>
    rw [List.flatMapM_cons, h x List.mem_cons_self, ih fun y hy => h y (List.mem_cons_of_mem _ hy)]
    rfl

theorem filterMapM_eq_some {f : α → Option (Option β)} {g : α → Option β}
    (h : ∀ x ∈ xs, f x = some (g x)) : xs.filterMapM f = some (xs.filterMap g) := by
  induction xs with
  | nil => rfl
  | cons x rest ih =>
    rw [List.filterMapM_cons, h x List.mem_cons_self,
      ih fun y hy => h y (List.mem_cons_of_mem _ hy), List.filterMap_cons]
    cases g x with
    | none => rfl
    | some y => rfl

theorem filterM_eq_some {f : α → Option Bool} {g : α → Bool} (h : ∀ x ∈ xs, f x = some (g x)) :
    xs.filterM f = some (xs.filter g) := by
  -- what passes is collected in reverse
  have haux : ∀ found, xs.filterAuxM f found = some ((xs.filter g).reverse ++ found) := by
    induction xs with
    | nil => intro found; rfl
    | cons x rest ih =>
      intro found
      rw [List.filterAuxM, h x List.mem_cons_self, List.filter_cons]
      have hrest := ih (fun y hy => h y (List.mem_cons_of_mem _ hy))
      cases g x with
      | false => exact hrest found
      | true =>
        rw [if_pos rfl, List.reverse_cons, List.append_assoc]
        exact hrest (x :: found)
  rw [List.filterM, haux]
  simp

theorem foldlM_eq_some {I : β → Prop} {f : β → α → Option β} {g : β → α → β}
    (hstep : ∀ b, I b → ∀ x ∈ xs, f b x = some (g b x) ∧ I (g b x)) {b : β} (hb : I b) :
    xs.foldlM f b = some (xs.foldl g b) ∧ I (xs.foldl g b) := by
  induction xs generalizing b with
  | nil => exact ⟨rfl, hb⟩
  | cons x rest ih =>
    obtain ⟨heq, hnext⟩ := hstep b hb x List.mem_cons_self
    rw [List.foldlM_cons, heq]
    exact ih (fun c hc y hy => hstep c hc y (List.mem_cons_of_mem _ hy)) hnext

end CallAtlas
