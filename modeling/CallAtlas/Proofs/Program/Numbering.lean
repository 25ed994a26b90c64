import CallAtlas.Proofs.Program.Literals
import CallAtlas.Proofs.Source.Order.Stmts

/-!
# Function literals are numbered as they are lowered

The literals of a function are numbered in the order in which they are lowered. This is the order of
the text but for two pairs of parts: the arguments of a call are lowered before the function that is
called, and what is received before the targets that it is assigned to. So two literals change
places exactly if they stand in the two parts of such a pair. Literals in types, in the bounds of
slices, in keys and in names that are declared are not lowered at all and have no number.

Main statement: of every function, method and literal of a file and of its variables, the numbers
are in the order of the text exactly if no such pair has literals in both parts, and they count all
its literals exactly if, besides, none stands where nothing is lowered
(`closures_in_source_order_iff`).
-/

set_option autoImplicit false

namespace CallAtlas

namespace Outline

open Source (Layout FuncLit stmtLayout stmtsLayout declLayout)

/-! ## The code of a file -/

/-- The functions are what the numbered literals are lowered to, in the order of the numbers. -/
def LoweredTo (layout : Layout) (closures : List Function) : Prop :=
  List.Forall₂ (fun p o => p.2 = p.1.layout ∧ ∃ c, o = outlineOf c p.1) layout.numbered closures

theorem loweredTo_none : LoweredTo .none [] := .nil

theorem LoweredTo.getElem? {layout : Layout} {closures : List Function}
    (h : LoweredTo layout closures) {i : Nat} {p : FuncLit × Layout} {o : Function}
    (hp : layout.numbered[i]? = some p) (ho : closures[i]? = some o) :
    p.2 = p.1.layout ∧ ∃ c, o = outlineOf c p.1 := by
  obtain ⟨hi, rfl⟩ := List.getElem?_eq_some_iff.mp hp
  obtain ⟨hi', rfl⟩ := List.getElem?_eq_some_iff.mp ho
  exact h.get hi hi'

theorem LoweredTo.lines {layout : Layout} {closures : List Function}
    (h : LoweredTo layout closures) :
    closures.map Function.line = layout.numbered.map fun p => p.1.pos.line := by
  unfold LoweredTo at h
  generalize layout.numbered = literals at h
  induction h with
  | nil => rfl
  | cons hp _ ih =>
    obtain ⟨_, c, rfl⟩ := hp
    rw [List.map_cons, List.map_cons, ih]
    rfl

theorem Lowers.loweredTo {α : Type} {c : Context} {m : Lowering α} {before : List Function}
    {spots : List Source.Spot} {L : Bool → List FuncLiteral} {first second : Layout}
    {S : α → List Nat → Prop} (hm : Lowers c m spots L second S) (h : LoweredTo first before) :
    LoweredTo (.seq first second) (m.run before).2 := by
  obtain ⟨added, _, heq, hadds, _⟩ := hm before
  rw [heq, hadds.outlines]
  apply List.rel_append h
  rw [List.forall₂_map_right_iff, List.forall₂_same]
  intro p hp
  exact ⟨hadds.inner p hp, c, rfl⟩

theorem loweredTo_stmts (c : Context) (stmts : List Source.Stmt) (part : Layout) :
    LoweredTo (.seq (.skipped part) (stmtsLayout stmts)) ((lowerStmts c stmts).run []).2 :=
  ((lowers_stmts c stmts).behind [] part).loweredTo loweredTo_none

theorem loweredTo_functionOf (c : Context) (d : Source.FuncDecl) (receiver : Option Receiver) :
    LoweredTo d.layout (functionOf c d receiver).closures := by
  cases hbody : d.body with
  | none =>
    rw [(functionOf_of_none c receiver hbody).2, Source.FuncDecl.layout, hbody]
    exact .nil
  | some stmts =>
    have hclosures : (functionOf c d receiver).closures =
        ((lowerStmts { c with typeParams := (functionOf c d receiver).typeParams } stmts).run
            []).2 := by
      simp only [functionOf, hbody, Option.map_some, Option.getD_some]
    rw [hclosures, Source.FuncDecl.layout, hbody]
    exact loweredTo_stmts _ stmts _

/-- The layout of a declaration as far as it belongs to the initializer. -/
def varLayout : Source.Decl → Layout
  | .stmt (.var line names ty values) => stmtLayout (.var line names ty values)
  | _ => .none

/-- The layout of the variables of a file. -/
def initLayout : List Source.Decl → Layout
  | [] => .none
  | d :: rest => .seq (varLayout d) (initLayout rest)

theorem varLayout_of_none {c : Context} {d : Source.Decl} (h : declaredVars? (c, d) = none) :
    varLayout d = .none := by
  unfold varLayout
  split
  · cases h
  · rfl

theorem loweredTo_add (p : Progress) (d : Source.Decl) {layout : Layout}
    (h : LoweredTo layout p.file.initClosures) :
    LoweredTo (.seq layout (varLayout d)) (p.add d).file.initClosures := by
  cases hd : declaredVars? (p.context, d) with
  | none =>
    rw [varLayout_of_none hd, (init_add_of_none p d hd).1, LoweredTo, Layout.numbered,
      Layout.numbered, List.append_nil]
    exact h
  | some part =>
    obtain ⟨line, names, ty, values, rfl, _⟩ := declaredVars?_eq_some hd
    exact ((lowers_exprs p.context values).behind [] _).loweredTo h

theorem loweredTo_foldl (decls : List Source.Decl) (p : Progress) {layout : Layout}
    (h : LoweredTo layout p.file.initClosures) :
    LoweredTo (.seq layout (initLayout decls)) (decls.foldl Progress.add p).file.initClosures := by
  induction decls generalizing p layout with
  | nil =>
    rw [LoweredTo, Layout.numbered, initLayout, Layout.numbered, List.append_nil]
    exact h
  | cons d rest ih =>
    have hrest := ih (p.add d) (loweredTo_add p d h)
    simp only [LoweredTo, Layout.numbered, List.append_assoc] at hrest
    exact hrest

section Files

variable (package : String) (packageNames : Table String String) (decls : List Source.Decl)

/-- The functions are the literals of a function, method or literal of the file, or of its
variables. -/
inductive File.Lists (file : File) : List Function → Prop
  | function {f : Function} (hf : f ∈ file.functions) : file.Lists f.closures
  | initializer : file.Lists file.initClosures
  | literal {closures : List Function} {o : Function} (h : file.Lists closures)
      (ho : o ∈ closures) :
    file.Lists o.closures

/-- The functions are the literals of something that is written in the file, and this is its
layout. -/
inductive LaidOut : Layout → List Function → Prop
  | declared {c : Context} {d : Source.FuncDecl} {o : Function}
      (hd : (c, .func d) ∈ inScope { package, packageNames } decls)
      (ho : declaredFunction? (c, .func d) = some o) : LaidOut d.layout o.closures
  | initializer : LaidOut (initLayout decls) (ofDecls package packageNames decls).initClosures
  | literal {layout : Layout} {closures : List Function} {i : Nat} {p : FuncLit × Layout}
      {o : Function} (h : LaidOut layout closures) (hp : layout.numbered[i]? = some p)
      (ho : closures[i]? = some o) : LaidOut p.2 o.closures

variable {package packageNames decls} {layout : Layout} {closures : List Function}

theorem LaidOut.loweredTo (h : LaidOut package packageNames decls layout closures) :
    LoweredTo layout closures := by
  induction h with
  | declared hd ho =>
    obtain ⟨f, receiver, hf, rfl⟩ := declaredFunction?_eq_some ho
    cases hf
    exact loweredTo_functionOf _ _ receiver
  | initializer =>
    exact loweredTo_foldl decls { context := { package, packageNames } } loweredTo_none
  | literal h hp ho ih =>
    obtain ⟨hinner, c, rfl⟩ := ih.getElem? hp ho
    rw [hinner]
    exact loweredTo_stmts c _ _

theorem mem_of_mem_inScope {c c' : Context} {d : Source.Decl} (h : (c', d) ∈ inScope c decls) :
    d ∈ decls := by
  induction decls generalizing c with
  | nil => cases h
  | cons d' rest ih =>
    rcases List.mem_cons.mp h with h | h
    · cases h
      exact List.mem_cons_self
    · exact List.mem_cons_of_mem _ (ih h)

theorem starts_initLayout_sublist :
    (initLayout decls).starts.Sublist (decls.flatMap fun d => (declLayout d).starts) := by
  induction decls with
  | nil => exact List.nil_sublist _
  | cons d rest ih =>
    rw [List.flatMap_cons]
    refine List.Sublist.append ?_ ih
    unfold varLayout
    split
    · exact List.Sublist.refl _
    · exact List.nil_sublist _

theorem LaidOut.starts_sublist (h : LaidOut package packageNames decls layout closures) :
    layout.starts.Sublist (decls.flatMap fun d => (declLayout d).starts) := by
  induction h with
  | declared hd ho =>
    rename_i c d o
    have hmem := List.mem_map_of_mem (f := fun d => (declLayout d).starts) (mem_of_mem_inScope hd)
    rw [List.flatMap_def]
    exact List.sublist_flatten_of_mem hmem
  | initializer => exact starts_initLayout_sublist
  | literal h hp ho ih =>
    rename_i layout closures i p o
    have hmem := layout.numbered_subset (List.mem_of_getElem? hp)
    refine List.Sublist.trans ?_ ih
    rw [layout.starts_eq, List.flatMap_def]
    have hmem' := List.mem_map_of_mem (f := fun p : FuncLit × Layout => p.1.pos :: p.2.starts) hmem
    exact (List.sublist_cons_self _ _).trans (List.sublist_flatten_of_mem hmem')

/-- Everything that has literals in the outline has a layout in the text, and nothing else has. -/
theorem lists_iff_laidOut : (ofDecls package packageNames decls).Lists closures ↔
    ∃ layout, LaidOut package packageNames decls layout closures := by
  constructor
  · intro h
    induction h with
    | function hf =>
      rw [functions_ofDecls] at hf
      obtain ⟨⟨c, d⟩, hd, ho⟩ := List.mem_filterMap.mp hf
      obtain ⟨f, receiver, rfl, _⟩ := declaredFunction?_eq_some ho
      exact ⟨f.layout, .declared hd ho⟩
    | initializer => exact ⟨initLayout decls, .initializer⟩
    | literal h ho ih =>
      obtain ⟨layout, hlaid⟩ := ih
      obtain ⟨i, hi⟩ := List.mem_iff_getElem?.mp ho
      have hlt : i < layout.numbered.length := by
        rw [hlaid.loweredTo.length_eq]
        exact (List.getElem?_eq_some_iff.mp hi).1
      exact ⟨_, .literal hlaid (List.getElem?_eq_getElem hlt) hi⟩
  · rintro ⟨layout, hlaid⟩
    induction hlaid with
    | declared hd ho =>
      apply File.Lists.function
      rw [functions_ofDecls]
      exact List.mem_filterMap.mpr ⟨_, hd, ho⟩
    | initializer => exact .initializer
    | literal h hp ho ih => exact ih.literal (List.mem_of_getElem? ho)

end Files

/-! ## The numbers -/

/-- One literal starts before another one. -/
def Precedes (p q : FuncLit × Layout) : Prop := p.1.pos.Before q.1.pos

theorem Precedes.asymm {p q : FuncLit × Layout} (h : Precedes p q) : ¬ Precedes q p :=
  Source.Position.Before.asymm h

theorem pairwise_written {layout : Layout} (h : layout.starts.Pairwise Source.Position.Before) :
    layout.written.Pairwise Precedes := by
  rw [layout.starts_eq, List.pairwise_flatMap] at h
  apply h.2.imp
  intro p q hpq
  exact hpq _ List.mem_cons_self _ List.mem_cons_self

/-- How the literals of some code are numbered, and what is left of the order of the text. -/
structure NumberedBy (layout : Layout) (closures : List Function) : Prop where
  /-- The closures are the literals that are numbered. -/
  lowered : LoweredTo layout closures
  /-- A program has the literal with the number `i` under a key that ends in `i + 1`, or if these
  are not the first literals of its function, in as many more. -/
  keys : ∀ (place : Assembly.Place) (parent : FuncId) (key name : String) (next : FuncId)
    (before : List Function) (i : Nat) (o : Function), closures[i]? = some o → ∃ k g,
      (Assembly.expandClosures place parent key name 1 next
        (before ++ closures)).1[before.length + i]? = some (next + k) ∧
      (Assembly.expandClosures place parent key name 1 next (before ++ closures)).2[k]? = some g ∧
      g.Enters o ∧ g.parent = some parent ∧ g.key = s!"{key}${before.length + i + 1}" ∧
      g.name = s!"{name}${before.length + i + 1}"
  /-- Every literal that is written directly in the code is numbered or left out. -/
  split : (layout.numbered ++ layout.dropped).Perm layout.written
  written : layout.written.Pairwise Precedes
  /-- The numbers are in the order of the text exactly if nothing is crossed. -/
  ordered_iff : layout.numbered.Pairwise Precedes ↔ layout.uncrossed = true
  /-- The numbers count the literals of the text exactly if, besides, nothing is left out. -/
  complete_iff : layout.numbered = layout.written ↔ layout.uncrossed = true ∧ layout.dropped = []
  lines : layout.uncrossed = true → (closures.map Function.line).Pairwise (· ≤ ·)

theorem numberedBy_of_pairwise {layout : Layout} {closures : List Function}
    (h : LoweredTo layout closures) (hstarts : layout.starts.Pairwise Source.Position.Before) :
    NumberedBy layout closures where
  lowered := h
  keys place parent key name next before i o ho := by
    have hbehind : (before ++ closures)[before.length + i]? = some o := by
      rw [List.getElem?_append_right (Nat.le_add_right ..), Nat.add_sub_cancel_left]
      exact ho
    obtain ⟨k, g, hid, hg, henters, hparent, hkey, hname⟩ :=
      Assembly.getElem?_expandClosures place parent key name _ 1 next hbehind
    rw [Nat.add_comm 1] at hkey hname
    exact ⟨k, g, hid, hg, henters, hparent, hkey, hname⟩
  split := layout.numbered_append_dropped_perm
  written := pairwise_written hstarts
  ordered_iff := Layout.pairwise_numbered_iff (fun _ _ => Precedes.asymm) (pairwise_written hstarts)
  complete_iff := Layout.numbered_eq_written_iff (fun _ _ => Precedes.asymm)
    (pairwise_written hstarts)
  lines huncrossed := by
    rw [h.lines, List.pairwise_map]
    have hordered := (pairwise_written hstarts).sublist (Layout.numbered_sublist_written huncrossed)
    exact hordered.imp fun hpq => hpq.line

/-- **Numbers follow the text unless something is crossed or left out.** In a text without syntax
errors, every function, method and function literal that is lowered, and the variables together,
have a layout of the literals that are written directly in them. Those that are numbered are the
closures, in the order of their numbers, and are known under keys that end in the numbers. They
are ordered by where they start exactly if nothing is crossed, and then their lines do not
decrease. They are all the literals in the order of the text exactly if nothing is crossed and
nothing left out. -/
theorem closures_in_source_order_iff {package : String} {packageNames : Table String String}
    {source : String} {file : File} (h : ofSource? package packageNames source = some file) :
    ∃ decls, Source.parse? source = some decls ∧ file = ofDecls package packageNames decls ∧
      (∀ closures, file.Lists closures ↔ ∃ layout,
        LaidOut package packageNames decls layout closures) ∧
      ∀ layout closures, LaidOut package packageNames decls layout closures →
        NumberedBy layout closures := by
  obtain ⟨decls, hdecls, rfl⟩ := Option.map_eq_some_iff.mp h
  refine ⟨decls, hdecls, rfl, fun _ => lists_iff_laidOut, ?_⟩
  intro layout closures hlaid
  have hstarts := (Source.pairwise_starts_of_parse? hdecls).sublist hlaid.starts_sublist
  exact numberedBy_of_pairwise hlaid.loweredTo hstarts

/-- A literal on line 4 is called with a literal on line 5 as its argument. -/
def calledLiteral : String :=
  "package main\n\nfunc main() \x7b\n\tfunc(g func()) \x7b\n\t\x7d(func() \x7b\n\t\x7d)\n\x7d\n"

theorem calledLiteral_evaluated :
    ((ofSource? "example.com/m" ∅ calledLiteral).bind fun file => file.functions[0]?).map (fun f =>
      f.closures.map Function.line) = some [5, 4] := by
  decide +kernel

theorem calledLiteral_main :
    ∃ file f, ofSource? "example.com/m" ∅ calledLiteral = some file ∧ f ∈ file.functions ∧
      f.closures.map Function.line = [5, 4] := by
  obtain ⟨f, hf, hlines⟩ := Option.map_eq_some_iff.mp calledLiteral_evaluated
  obtain ⟨file, hfile, hfirst⟩ := Option.bind_eq_some_iff.mp hf
  exact ⟨file, f, hfile, List.mem_of_getElem? hfirst, hlines⟩

theorem closures_in_source_order_iff_calledLiteral :
    ∃ file f decls layout, ofSource? "example.com/m" ∅ calledLiteral = some file ∧
      f ∈ file.functions ∧ Source.parse? calledLiteral = some decls ∧
      LaidOut "example.com/m" ∅ decls layout f.closures ∧ NumberedBy layout f.closures ∧
      layout.uncrossed = false := by
  obtain ⟨file, f, hfile, hf, hlines⟩ := calledLiteral_main
  obtain ⟨decls, hdecls, _, hlists, hnumbered⟩ := closures_in_source_order_iff hfile
  obtain ⟨layout, hlaid⟩ := (hlists _).mp (.function hf)
  have hby := hnumbered layout f.closures hlaid
  refine ⟨file, f, decls, layout, hfile, hf, hdecls, hlaid, hby, ?_⟩
  by_contra huncrossed
  have hsorted := hby.lines ((Bool.not_eq_false _).mp huncrossed)
  rw [hlines] at hsorted
  exact absurd hsorted (by decide)

/-- The lines of closures may decrease: the literal that is written first is numbered last. -/
theorem calledLiteral_not_in_source_order :
    ∃ file closures, ofSource? "example.com/m" ∅ calledLiteral = some file ∧ file.Lists closures ∧
      ¬ (closures.map Function.line).Pairwise (· ≤ ·) := by
  obtain ⟨file, f, hfile, hf, hlines⟩ := calledLiteral_main
  refine ⟨file, f.closures, hfile, .function hf, ?_⟩
  rw [hlines]
  decide

end Outline

end CallAtlas
