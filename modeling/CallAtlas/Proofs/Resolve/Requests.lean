import CallAtlas.Proofs.Program.Initializers
import CallAtlas.Proofs.Program.Keys
import CallAtlas.Proofs.Resolve.Parts

/-!
# The functions that reading adds

Reading adds a function for a method that is bound to its receiver, for a method that is selected on
its type, for a generic function at some types, and for a function of a package that is not loaded.
Nothing else is ever added (`Requested`), and the key of such a function tells which it is
(`Requested.eq_of_key`): the sign behind the key of a method, the bracket behind that of a generic
function, and the name of an external one are told apart from the end.

So a program that is being read consists of the functions it begins with, and of requested
ones (`Over`). In which order those are added depends on the bodies, but which function
has a key does not.
-/

set_option autoImplicit false

namespace CallAtlas

/-- What the other functions can see of a function: everything but its number, its body and its
line. -/
def Function.face (f : Function) : Function := { f with id := 0, body := none, line := 0 }

@[simp] theorem Function.key_face (f : Function) : f.face.key = f.key := rfl

theorem Function.key_eq_of_face {f g : Function} (h : f.face = g.face) : f.key = g.key := by
  rw [← f.key_face, h, g.key_face]

/-- The program without bodies. -/
def Program.faces (p : Program) : Program := { p with functions := p.functions.map Function.face }

namespace Resolve

open Outline (Signature)

/-! ## Requests -/

/-- How a function that only calls `f` is written: a method with its receiver bound or as a
parameter, or a generic function at some types. -/
inductive Wrapping (u : Universe) (f : Function) : String → FunctionKind → Signature → Prop
  | bound : Wrapping u f "$bound" .bound f.signature
  | thunk : Wrapping u f "$thunk" .thunk { f.signature with params := receiverParam u f ++
      f.signature.params }
  | instantiation (args : String) (hgeneric : f.isGeneric = true) :
      Wrapping u f ("[" ++ args ++ "]") .instantiation f.signature

/-- A function that reading can add to a program, with its facts. -/
inductive Requested (b : Program) : Function → Facts → Prop
  | wrapper {id : FuncId} {f : Function} {ending : String} {kind : FunctionKind}
      {signature : Signature} (hf : b.functions[id]? = some f)
      (h : Wrapping b.decls f ending kind signature) :
      Requested b (wrapped f ending kind signature) (.calling id)
  | external (path : String) {name : String} (hname : Text.isIdentifier name = true) :
      Requested b { key := path ++ "." ++ name, name, package := some path, kind := .external } {}

/-- A program to which functions can be added: the functions in its tables exist, a function literal
comes behind the function around it, and keys are distinct and without brackets. -/
structure Ground (b : Program) : Prop where
  listed : ∀ {id : FuncId}, b.Lists id → id < b.functions.length
  parents : ∀ {id parent : FuncId} {f : Function}, b.functions[id]? = some f →
    f.parent = some parent → parent < id
  nodup : (b.functions.map Function.key).Nodup
  brackets : ∀ f ∈ b.functions, '[' ∉ f.key.toList

variable {b : Program}

theorem Ground.eq_of_key (hb : Ground b) {i j : FuncId} {f g : Function}
    (hf : b.functions[i]? = some f) (hg : b.functions[j]? = some g) (h : f.key = g.key) :
    i = j := by
  have hi := Program.funcByKey?_of_nodup hb.nodup hf
  rw [h, Program.funcByKey?_of_nodup hb.nodup hg] at hi
  exact (Option.some.inj hi).symm

theorem Ground.lt_of_member (hb : Ground b) {ty : Ty} {name : String} {id : FuncId}
    (h : b.decls.member ty name = some (.method id)) : id < b.functions.length := by
  obtain ⟨owner, _, hmember⟩ := Option.bind_eq_some_iff.mp h
  obtain ⟨t, ht, m, hm, rfl⟩ := Universe.exists_method_of_memberFrom hmember
  exact hb.listed (.method ht hm)

theorem Ground.lt_of_methodOf (hb : Ground b) {owner : TypeId} {name : String} {id : FuncId}
    (h : b.decls.methodOf owner name = some id) : id < b.functions.length := by
  obtain ⟨t, ht, m, hm, rfl⟩ := Universe.exists_method_of_methodOf h
  exact hb.listed (.method ht hm)

theorem Ground.lt_of_funcs (hb : Ground b) {path name : String} {q : Package} {id : FuncId}
    (hq : b.package? path = some q) (h : q.funcs.get? name = some id) :
    id < b.functions.length := by
  obtain ⟨i, hi, _⟩ := Program.exists_of_package? hq
  exact hb.listed (.packageFunc (List.mem_of_getElem? hi)
    (List.mem_map_of_mem (Table.mem_entries_of_get? h)))

theorem Ground.lt_of_packageFunc? (hb : Ground b) {pkg name : String} {id : FuncId}
    (h : b.packageFunc? pkg name = some id) : id < b.functions.length := by
  obtain ⟨q, hq, hid⟩ := Option.bind_eq_some_iff.mp h
  exact hb.lt_of_funcs hq hid

/-! ## What a key was written from -/

/-- A text is cut in front of the name that it ends with in one way only. -/
theorem append_name_inj {a a' n n' : List Char} {c c' : Char}
    (hn : ∀ x ∈ n, Text.isNameChar x = true) (hn' : ∀ x ∈ n', Text.isNameChar x = true)
    (hc : Text.isNameChar c = false) (hc' : Text.isNameChar c' = false)
    (h : a ++ c :: n = a' ++ c' :: n') : a = a' ∧ c = c' ∧ n = n' := by
  have hreverse := congrArg List.reverse h
  simp only [List.reverse_append, List.reverse_cons, List.append_assoc,
    List.singleton_append] at hreverse
  obtain ⟨hname, hfront⟩ := append_inj_of_class (p := Text.isNameChar)
    (fun x hx => hn x (List.mem_reverse.mp hx)) (fun x hx => hn' x (List.mem_reverse.mp hx))
    (by simpa using hc) (by simpa using hc') hreverse
  obtain ⟨hsign, hfront⟩ := List.cons.inj hfront
  exact ⟨List.reverse_injective hfront, hsign, List.reverse_injective hname⟩

/-- A wrapper ends with a sign and a name, which may be empty. -/
theorem Wrapping.ending_eq {u : Universe} {f : Function} {ending : String} {kind : FunctionKind}
    {signature : Signature} (h : Wrapping u f ending kind signature) :
    ∃ front c n, ending.toList = front ++ c :: n ∧ c ∈ ['$', ']'] ∧
      ∀ x ∈ n, Text.isNameChar x = true := by
  cases h with
  | bound =>
    have hname : Text.isIdentifier "bound" = true := by decide
    exact ⟨[], '$', "bound".toList, by simp, by simp,
      fun _ hx => Text.isNameChar_of_isIdentifier hname hx⟩
  | thunk =>
    have hname : Text.isIdentifier "thunk" = true := by decide
    exact ⟨[], '$', "thunk".toList, by simp, by simp,
      fun _ hx => Text.isNameChar_of_isIdentifier hname hx⟩
  | instantiation args _ => exact ⟨("[" ++ args).toList, ']', [], by simp, by simp, by simp⟩

theorem Wrapping.unique {u : Universe} {f : Function} {ending ending' : String}
    {kind kind' : FunctionKind} {signature signature' : Signature}
    (h : Wrapping u f ending kind signature) (h' : Wrapping u f ending' kind' signature')
    (heq : ending = ending') : kind = kind' ∧ signature = signature' := by
  have hlast := congrArg (fun ending => ending.toList.reverse.head?) heq
  cases h <;> cases h' <;> first | exact ⟨rfl, rfl⟩ | simp at hlast

theorem isNameChar_ending {c : Char} (h : c ∈ ['$', ']']) : Text.isNameChar c = false := by
  simp only [List.mem_cons, List.not_mem_nil, or_false] at h
  rcases h with rfl | rfl <;> decide

/-- The key of a function and what stands behind it are told apart. -/
theorem Wrapping.append_inj {u : Universe} {f g : Function} {ending ending' : String}
    {kind kind' : FunctionKind} {signature signature' : Signature} (hf : '[' ∉ f.key.toList)
    (hg : '[' ∉ g.key.toList) (h : Wrapping u f ending kind signature)
    (h' : Wrapping u g ending' kind' signature') (hkey : f.key ++ ending = g.key ++ ending') :
    f.key = g.key ∧ ending = ending' := by
  have hparts := congrArg String.toList hkey
  rw [String.toList_append, String.toList_append] at hparts
  -- the signs of methods have one length, and no bracket stands before that of an instance
  have hsame : ending.toList.length = ending'.toList.length → f.key = g.key ∧ ending = ending' := by
    intro hlength
    obtain ⟨hfront, hback⟩ := List.append_inj' hparts hlength
    exact ⟨String.toList_inj.mp hfront, String.toList_inj.mp hback⟩
  have hlast := congrArg (fun cs => cs.reverse.head?) hparts
  cases h with
  | instantiation args _ =>
    cases h' with
    | instantiation args' _ =>
      have hne : ∀ {f : Function}, '[' ∉ f.key.toList → ∀ c ∈ f.key.toList, (c != '[') = true := by
        intro f hf c hc
        rw [bne_iff_ne]
        rintro rfl
        exact hf hc
      obtain ⟨hfront, hback⟩ := append_inj_of_class (hne hf) (hne hg) (by simp) (by simp) hparts
      exact ⟨String.toList_inj.mp hfront, String.toList_inj.mp hback⟩
    | _ => simp at hlast
  | _ =>
    cases h' with
    | instantiation args' _ => simp at hlast
    | _ => exact hsame (by simp)

theorem toList_dotted (path name : String) :
    (path ++ "." ++ name).toList = path.toList ++ '.' :: name.toList := by
  simp

/-- A function with a key is requested in one way only. -/
theorem Requested.eq_of_key (hb : Ground b) {f g : Function} {facts facts' : Facts}
    (hf : Requested b f facts) (hg : Requested b g facts') (h : f.key = g.key) :
    f = g ∧ facts = facts' := by
  -- the name of an external function is cut off at a dot, and what stands behind a key is not
  have hmixed :
      ∀ {f : Function} {ending path name : String} {kind : FunctionKind} {signature : Signature},
      Wrapping b.decls f ending kind signature → Text.isIdentifier name = true →
      f.key ++ ending ≠ path ++ "." ++ name := by
    intro f ending path name kind signature hwraps hname heq
    obtain ⟨front, c, n, hending, hc, hn⟩ := hwraps.ending_eq
    have hparts := congrArg String.toList heq
    rw [toList_dotted, String.toList_append, hending, ← List.append_assoc] at hparts
    obtain ⟨_, hsign, _⟩ := append_name_inj hn
      (fun x hx => Text.isNameChar_of_isIdentifier hname hx) (isNameChar_ending hc)
      (Text.isNameChar_sign (by simp)) hparts
    rw [hsign] at hc
    exact absurd hc (by decide)
  cases hf with
  | wrapper hfunc hwraps =>
    cases hg with
    | wrapper hfunc' hwraps' =>
      obtain ⟨hkey, hending⟩ := hwraps.append_inj (hb.brackets _ (List.mem_of_getElem? hfunc))
        (hb.brackets _ (List.mem_of_getElem? hfunc')) hwraps' h
      obtain rfl := hb.eq_of_key hfunc hfunc' hkey
      obtain rfl := Option.some.inj (hfunc.symm.trans hfunc')
      obtain ⟨hkind, hsignature⟩ := hwraps.unique hwraps' hending
      rw [hending, hkind, hsignature]
      exact ⟨rfl, rfl⟩
    | external path hname => exact absurd h (hmixed hwraps hname)
  | external path hname =>
    cases hg with
    | wrapper hfunc' hwraps' => exact absurd h.symm (hmixed hwraps' hname)
    | external path' hname' =>
      have hparts := congrArg String.toList h
      rw [toList_dotted, toList_dotted] at hparts
      obtain ⟨hpath, _, hsame⟩ := append_name_inj
        (fun x hx => Text.isNameChar_of_isIdentifier hname hx)
        (fun x hx => Text.isNameChar_of_isIdentifier hname' hx) (Text.isNameChar_sign (by simp))
        (Text.isNameChar_sign (by simp)) hparts
      obtain rfl := String.toList_inj.mp hpath
      obtain rfl := String.toList_inj.mp hsame
      exact ⟨rfl, rfl⟩

/-! ## States over a program -/

/-- A state while the bodies of a program are read: the functions are those of `b`, whatever their
bodies are, and requested ones behind them. The calls that have been recorded of the current
function lead to functions. -/
structure Over (b : Program) (s : State) : Prop where
  functions : b.functions <+: s.program.functions.map Function.face
  packages : s.program.packages = b.packages
  decls : s.program.decls = b.decls
  nodup : (s.program.functions.map Function.key).Nodup
  length : s.program.facts.length = s.program.functions.length
  requested : ∀ {id : FuncId} {f : Function}, b.functions.length ≤ id →
    s.program.functions[id]? = some f → ∃ facts, s.program.facts[id]? = some facts ∧
    Requested b f.face facts
  targets : ∀ site ∈ s.frame.facts.sites, ∀ id, site.target = .static id →
    id < s.program.functions.length
  current : s.frame.id < b.functions.length

variable {s : State}

theorem Over.function (hs : Over b s) {id : FuncId} (hid : id < b.functions.length) :
    (s.program.functions[id]?).map Function.face = b.functions[id]? := by
  rw [← List.getElem?_map]
  exact getElem?_eq_of_extends hs.functions hid

theorem Over.lt (hs : Over b s) {id : FuncId} (hid : id < b.functions.length) :
    id < s.program.functions.length := by
  have hle := hs.functions.length_le
  rw [List.length_map] at hle
  exact Nat.lt_of_lt_of_le hid hle

/-- What does not depend on the body of a function can be looked up in the program. -/
theorem Over.bind_function {β : Type} (hs : Over b s) {id : FuncId} (hid : id < b.functions.length)
    {g : Function → Option β} (hg : ∀ f : Function, g f.face = g f) :
    (s.program.functions[id]?).bind g = (b.functions[id]?).bind g := by
  rw [← hs.function hid, Option.bind_map]
  exact Option.bind_congr fun f _ => (hg f).symm

theorem Over.package? (hs : Over b s) (path : String) :
    s.program.package? path = b.package? path := by
  unfold Program.package?
  rw [hs.packages]

theorem Over.packageFunc? (hs : Over b s) (pkg name : String) :
    s.program.packageFunc? pkg name = b.packageFunc? pkg name := by
  unfold Program.packageFunc?
  rw [hs.package?]

/-- A key that is free in the state is free in the program. -/
theorem Over.funcByKey?_eq_none (hs : Over b s) {key : String}
    (h : s.program.funcByKey? key = none) : b.funcByKey? key = none := by
  rw [Program.funcByKey?_eq_none_iff] at h ⊢
  intro hkey
  obtain ⟨g, hg, rfl⟩ := List.mem_map.mp hkey
  obtain ⟨f, hf, rfl⟩ := List.mem_map.mp (hs.functions.subset hg)
  exact h (List.mem_map.mpr ⟨f, hf, rfl⟩)

/-- A requested function is none of the program. -/
theorem Over.getElem?_of_key (hs : Over b s) {id : FuncId} {f g : Function} {i : FuncId}
    (hf : s.program.functions[id]? = some f) (hg : b.functions[i]? = some g)
    (h : f.key = g.key) : id = i := by
  have hlt := (List.getElem?_eq_some_iff.mp hg).1
  obtain ⟨g', hg', hface⟩ := Option.map_eq_some_iff.mp ((hs.function hlt).trans hg)
  have hkey : f.key = g'.key := by rw [h, ← hface, Function.key_face]
  have hid := Program.funcByKey?_of_nodup hs.nodup hf
  rw [hkey, Program.funcByKey?_of_nodup hs.nodup hg'] at hid
  exact (Option.some.inj hid).symm

/-! ### Functions around functions -/

/-- A function literal comes behind the function around it, so the search for the functions around
it comes to an end by itself. -/
theorem chainFrom_eq (hb : Ground b) {p : Program}
    (hp : ∀ {id : FuncId}, id < b.functions.length →
      (p.functions[id]?).bind Function.parent = (b.functions[id]?).bind Function.parent)
    {fuel fuel' : Nat} {id : FuncId} (hid : id < b.functions.length) (hfuel : id < fuel)
    (hfuel' : id < fuel') :
    p.chainFrom fuel id = b.chainFrom fuel' id := by
  induction fuel generalizing fuel' id with
  | zero => exact absurd hfuel (Nat.not_lt_zero _)
  | succ fuel ih =>
    cases fuel' with
    | zero => exact absurd hfuel' (Nat.not_lt_zero _)
    | succ fuel' =>
      rw [Program.chainFrom, Program.chainFrom, hp hid]
      cases hparent : (b.functions[id]?).bind Function.parent with
      | none => rfl
      | some parent =>
        obtain ⟨f, hf, hfparent⟩ := Option.bind_eq_some_iff.mp hparent
        have hlt := hb.parents hf hfparent
        exact congrArg _ (ih (Nat.lt_trans hlt hid)
          (Nat.lt_of_lt_of_le hlt (Nat.le_of_lt_succ hfuel))
          (Nat.lt_of_lt_of_le hlt (Nat.le_of_lt_succ hfuel')))

theorem lt_of_mem_chainFrom (hb : Ground b) {fuel : Nat} {id other : FuncId}
    (hid : id < b.functions.length) (h : other ∈ b.chainFrom fuel id) :
    other < b.functions.length := by
  induction fuel generalizing id with
  | zero => cases h
  | succ fuel ih =>
    rw [Program.chainFrom] at h
    rcases List.mem_cons.mp h with rfl | h
    · exact hid
    · cases hparent : (b.functions[id]?).bind Function.parent with
      | none =>
        rw [hparent] at h
        cases h
      | some parent =>
        rw [hparent] at h
        obtain ⟨f, hf, hfparent⟩ := Option.bind_eq_some_iff.mp hparent
        exact ih (Nat.lt_trans (hb.parents hf hfparent) hid) h

theorem Over.chain (hb : Ground b) (hs : Over b s) :
    s.program.chain s.frame.id = b.chain s.frame.id :=
  chainFrom_eq hb (fun hid => hs.bind_function hid fun _ => rfl) hs.current
    (Nat.lt_succ_of_lt (hs.lt hs.current)) (Nat.lt_succ_of_lt hs.current)

end Resolve

end CallAtlas
