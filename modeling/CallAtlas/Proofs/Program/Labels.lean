import CallAtlas.Program.Basic
import CallAtlas.Text.Classes
import Mathlib.Data.List.Basic

/-!
# What a key is written from

A function of a package is known by its key, a text. The key of a function is its package and its
name, that of a method has the receiver in front, user-written initializers are numbered, and a
function literal has the key of the function around it with its own number behind. A `Label` is what
such a key is written from, and the key gives the label back (`Label.text_inj`).

A key is read from the end. Names hold no dot, so the last dot stands in front of the name of the
function; what follows the name begins with a sign that is no part of a name. In front of the dot
stands a package, or a receiver in parentheses, which no package holds.
-/

set_option autoImplicit false

namespace CallAtlas

/-! ## Cutting a text -/

/-- A text is cut behind its longest beginning of one class in one way only. -/
theorem append_inj_of_class {p : Char → Bool} {a a' b b' : List Char} (ha : ∀ c ∈ a, p c = true)
    (ha' : ∀ c ∈ a', p c = true) (hb : ∀ c ∈ b.head?, p c = false)
    (hb' : ∀ c ∈ b'.head?, p c = false)
    (h : a ++ b = a' ++ b') : a = a' ∧ b = b' := by
  have htake : ∀ {a b : List Char}, (∀ c ∈ a, p c = true) → (∀ c ∈ b.head?, p c = false) →
      (a ++ b).takeWhile p = a := by
    intro a b ha hb
    rw [List.takeWhile_append_of_pos ha]
    cases b with
    | nil => simp
    | cons c rest => rw [List.takeWhile_cons_of_neg (by simp [hb c rfl]), List.append_nil]
  have heq : a = a' := by rw [← htake ha hb, h, htake ha' hb']
  subst heq
  exact ⟨rfl, List.append_cancel_left h⟩

/-- A text is cut at its last dot in one way only. -/
theorem append_dot_inj {a a' b b' : List Char} (hb : '.' ∉ b) (hb' : '.' ∉ b')
    (h : a ++ '.' :: b = a' ++ '.' :: b') : a = a' ∧ b = b' := by
  have hne : ∀ {b : List Char}, '.' ∉ b → ∀ c ∈ b.reverse, (c != '.') = true := by
    intro b hb c hc
    rw [bne_iff_ne]
    rintro rfl
    exact hb (List.mem_reverse.mp hc)
  have hreverse := congrArg List.reverse h
  simp only [List.reverse_append, List.reverse_cons, List.append_assoc,
    List.singleton_append] at hreverse
  obtain ⟨hback, hfront⟩ := append_inj_of_class (hne hb) (hne hb') (by simp) (by simp) hreverse
  exact ⟨List.reverse_injective (List.cons.inj hfront).2, List.reverse_injective hback⟩

theorem isDigit_of_mem_repr {n : Nat} {c : Char} (h : c ∈ n.repr.toList) : c.isDigit = true := by
  rw [Nat.toList_repr] at h
  exact Nat.isDigit_of_mem_toDigits (by decide) (by decide) h

theorem toList_repr_inj {n m : Nat} (h : n.repr.toList = m.repr.toList) : n = m := by
  rw [Nat.toList_repr, Nat.toList_repr] at h
  rw [← Nat.ofDigitChars_toDigits (b := 10) (n := n) (by decide) (by decide), h,
    Nat.ofDigitChars_toDigits (by decide) (by decide)]

/-! ## Names -/

namespace Text

/-- A character that stands in some identifier. -/
def isNameChar (c : Char) : Bool := isIdentStart c || isIdentContinue c

/-- The text is an identifier. -/
def isIdentifier (s : String) : Bool :=
  match s.toList with
  | [] => false
  | c :: rest => isIdentStart c && rest.all isIdentContinue

/-- No sign of the text belongs to a receiver. -/
def HasNoReceiver (s : String) : Prop := ∀ c ∈ s.toList, c ∉ ['(', ')', '*']

instance (s : String) : Decidable (HasNoReceiver s) :=
  List.decidableBAll (fun c => c ∉ ['(', ')', '*']) s.toList

theorem isNameChar_of_isIdentifier {s : String} (h : isIdentifier s = true) {c : Char}
    (hc : c ∈ s.toList) : isNameChar c = true := by
  unfold isIdentifier at h
  cases hlist : s.toList with
  | nil =>
    rw [hlist] at hc
    cases hc
  | cons first rest =>
    rw [hlist] at h hc
    obtain ⟨hfirst, hrest⟩ := Bool.and_eq_true_iff.mp h
    rcases List.mem_cons.mp hc with rfl | hc
    · simp [isNameChar, hfirst]
    · simp [isNameChar, List.all_eq_true.mp hrest c hc]

/-- None of the signs that keys are written with stands in an identifier. -/
theorem isNameChar_sign {c : Char} (h : c ∈ ['.', '#', '$', '(', ')', '*']) :
    isNameChar c = false := by
  simp only [List.mem_cons, List.not_mem_nil, or_false] at h
  rcases h with rfl | rfl | rfl | rfl | rfl | rfl <;> decide

end Text

/-! ## Labels -/

/-- What the key of a function that is no literal is written from. The initializer of a package has
the plain name `init`. -/
inductive Root where
  | plain (pkg name : String)
  | numbered (pkg : String) (n : Nat)
  | method (pointer : Bool) (pkg type name : String)
deriving DecidableEq, Repr

/-- A function, and the numbers of the literals from the outermost to the one that is meant. -/
structure Label where
  root : Root
  path : List Nat := []
deriving DecidableEq, Repr

namespace Root

/-- The key as it is written when a program is put together. -/
def text : Root → String
  | .plain pkg name => s!"{pkg}.{name}"
  | .numbered pkg n =>
    let name := s!"init#{n}"
    s!"{pkg}.{name}"
  | .method pointer pkg type name =>
    let star := if pointer then "*" else ""
    s!"({star}{pkg}.{type}).{name}"

/-- The name as it is shown, without the package. -/
def shown : Root → String
  | .plain _ name => name
  | .numbered _ n => s!"init#{n}"
  | .method pointer _ type name =>
    let star := if pointer then "*" else ""
    s!"({star}{type}).{name}"

/-- The names are identifiers, and the package has no sign of a receiver. -/
def Written : Root → Prop
  | .plain pkg name => Text.HasNoReceiver pkg ∧ Text.isIdentifier name = true
  | .numbered pkg _ => Text.HasNoReceiver pkg
  | .method _ pkg type name =>
    Text.HasNoReceiver pkg ∧ Text.isIdentifier type = true ∧ Text.isIdentifier name = true

/-- What stands in front of the last dot. -/
def front : Root → List Char
  | .plain pkg _ => pkg.toList
  | .numbered pkg _ => pkg.toList
  | .method pointer pkg type _ =>
    '(' :: ((if pointer then ['*'] else []) ++ (pkg.toList ++ '.' :: (type.toList ++ [')'])))

/-- The name behind the last dot. -/
def name : Root → String
  | .plain _ name => name
  | .numbered _ _ => "init"
  | .method _ _ _ name => name

/-- What stands behind the name. -/
def number : Root → List Char
  | .numbered _ n => '#' :: n.repr.toList
  | _ => []

theorem text_init (pkg : String) : (Root.plain pkg "init").text = s!"{pkg}.init" := by
  rw [← String.toList_inj]
  simp [text, ToString.toString]

theorem toList_text (r : Root) :
    r.text.toList = r.front ++ '.' :: (r.name.toList ++ r.number) := by
  cases r with
  | plain pkg name => simp [text, front, Root.name, number, ToString.toString]
  | numbered pkg n => simp [text, front, name, number, ToString.toString]
  | method pointer pkg type name =>
    cases pointer <;> simp [text, front, Root.name, number, ToString.toString]

theorem number_eq (r : Root) : r.number = [] ∨ ∃ n : Nat, r.number = '#' :: n.repr.toList := by
  cases r with
  | plain pkg name => exact Or.inl rfl
  | numbered pkg n => exact Or.inr ⟨n, rfl⟩
  | method pointer pkg type name => exact Or.inl rfl

theorem Written.isIdentifier_name {r : Root} (h : r.Written) : Text.isIdentifier r.name = true := by
  cases r with
  | plain pkg name => exact h.2
  | numbered pkg n =>
    have hinit : Text.isIdentifier "init" = true := by decide
    exact hinit
  | method pointer pkg type name => exact h.2.2

/-- The parenthesis keeps a method apart from a function, and the star a pointer from a value. -/
theorem method_front_inj {pointer pointer' : Bool} {pkg pkg' type type' name name' : String}
    (h : Written (.method pointer pkg type name)) (h' : Written (.method pointer' pkg' type' name'))
    (heq : front (.method pointer pkg type name) = front (.method pointer' pkg' type' name')) :
    pointer = pointer' ∧ pkg = pkg' ∧ type = type' := by
  -- a package, or the dot behind an empty one, does not begin with a star
  have hstar : ∀ {pkg type : String}, Text.HasNoReceiver pkg →
      ∀ c ∈ (pkg.toList ++ '.' :: (type.toList ++ [')'])).head?, (c == '*') = false := by
    intro pkg type hpkg c hc
    cases hlist : pkg.toList with
    | nil =>
      rw [hlist] at hc
      cases hc
      rfl
    | cons first rest =>
      rw [hlist] at hc
      cases hc
      have hfirst := hpkg c (hlist ▸ List.mem_cons_self)
      rw [beq_eq_false_iff_ne]
      rintro rfl
      exact hfirst (by simp)
  have hdot : ∀ {type : String}, Text.isIdentifier type = true → '.' ∉ type.toList ++ [')'] := by
    intro type htype hmem
    rcases List.mem_append.mp hmem with hmem | hmem
    · have hchar := Text.isNameChar_of_isIdentifier htype hmem
      rw [Text.isNameChar_sign (by simp)] at hchar
      cases hchar
    · exact absurd hmem (by simp)
  have hall : ∀ pointer : Bool, ∀ c ∈ (if pointer then ['*'] else []), (c == '*') = true := by
    intro pointer c hc
    cases pointer with
    | false => cases hc
    | true =>
      rw [List.mem_singleton.mp hc]
      rfl
  obtain ⟨hpointer, hrest⟩ := append_inj_of_class (p := (· == '*')) (hall pointer) (hall pointer')
    (hstar h.1) (hstar h'.1) (List.cons.inj heq).2
  obtain ⟨hpkg, htype⟩ := append_dot_inj (hdot h.2.1) (hdot h'.2.1) hrest
  refine ⟨?_, String.toList_inj.mp hpkg, String.toList_inj.mp (List.append_cancel_right htype)⟩
  cases pointer <;> cases pointer' <;> simp_all

theorem front_ne_method {r : Root} {pointer : Bool} {pkg type name : String}
    (hr : ∀ c ∈ r.front, c ∉ ['(', ')', '*']) :
    r.front ≠ front (.method pointer pkg type name) := by
  intro heq
  rw [heq] at hr
  exact hr '(' List.mem_cons_self (by simp)

/-- The three parts of a key give its root. -/
theorem eq_of_parts {r r' : Root} (h : r.Written) (h' : r'.Written) (hfront : r.front = r'.front)
    (hname : r.name = r'.name) (hnumber : r.number = r'.number) : r = r' := by
  cases r with
  | plain pkg name =>
    cases r' with
    | plain pkg' name' =>
      obtain rfl : name = name' := hname
      exact congrArg (plain · name) (String.toList_inj.mp hfront)
    | numbered pkg' n' => cases hnumber
    | method pointer' pkg' type' name' => exact absurd hfront (front_ne_method h.1)
  | numbered pkg n =>
    cases r' with
    | plain pkg' name' => cases hnumber
    | numbered pkg' n' =>
      obtain rfl : n = n' := toList_repr_inj (List.cons.inj hnumber).2
      exact congrArg (numbered · n) (String.toList_inj.mp hfront)
    | method pointer' pkg' type' name' => cases hnumber
  | method pointer pkg type name =>
    cases r' with
    | plain pkg' name' => exact absurd hfront.symm (front_ne_method h'.1)
    | numbered pkg' n' => cases hnumber
    | method pointer' pkg' type' name' =>
      obtain ⟨rfl, rfl, rfl⟩ := method_front_inj h h' hfront
      exact congrArg (method pointer pkg type) hname

end Root

namespace Label

/-- The key of a function literal is that of the function around it with its number. -/
def text (l : Label) : String := l.path.foldl (fun key n => s!"{key}${n}") l.root.text

theorem text_concat (root : Root) (path : List Nat) (n : Nat) :
    text ⟨root, path ++ [n]⟩ = s!"{text ⟨root, path⟩}${n}" := by
  simp [text]

/-- The numbers of the literals as they are written. -/
def pathText (path : List Nat) : List Char := path.flatMap fun n => '$' :: n.repr.toList

theorem toList_text (l : Label) : l.text.toList = l.root.text.toList ++ pathText l.path := by
  have hfold : ∀ (path : List Nat) (key : String),
      (path.foldl (fun key n => s!"{key}${n}") key).toList = key.toList ++ pathText path := by
    intro path
    induction path with
    | nil => simp [pathText]
    | cons n rest ih =>
      intro key
      rw [List.foldl_cons, ih]
      simp [pathText, ToString.toString]
  exact hfold l.path l.root.text

theorem head?_pathText {path : List Nat} {c : Char} (hc : c ∈ (pathText path).head?) : c = '$' := by
  cases path with
  | nil => cases hc
  | cons n rest =>
    cases hc
    rfl

theorem isDigit_head?_pathText {path : List Nat} :
    ∀ c ∈ (pathText path).head?, c.isDigit = false := by
  intro c hc
  rw [head?_pathText hc]
  rfl

theorem pathText_inj {path path' : List Nat} (h : pathText path = pathText path') :
    path = path' := by
  induction path generalizing path' with
  | nil =>
    cases path' with
    | nil => rfl
    | cons n' rest' => cases h
  | cons n rest ih =>
    cases path' with
    | nil => cases h
    | cons n' rest' =>
      obtain ⟨hn, hrest⟩ := append_inj_of_class (fun _ => isDigit_of_mem_repr)
        (fun _ => isDigit_of_mem_repr) isDigit_head?_pathText isDigit_head?_pathText
        (List.cons.inj h).2
      rw [toList_repr_inj hn, ih hrest]

/-- The number and the literals are told apart by their signs. -/
theorem ending_inj {r r' : Root} {path path' : List Nat}
    (h : r.number ++ pathText path = r'.number ++ pathText path') :
    r.number = r'.number ∧ path = path' := by
  have hne : ∀ {path : List Nat} {ending : List Char}, pathText path ≠ '#' :: ending := by
    intro path ending heq
    have hmem : '#' ∈ (pathText path).head? := by
      rw [heq]
      rfl
    exact absurd (head?_pathText hmem) (by decide)
  rcases r.number_eq with hr | ⟨n, hr⟩ <;> rcases r'.number_eq with hr' | ⟨n', hr'⟩ <;>
    rw [hr, hr'] at h ⊢
  · exact ⟨rfl, pathText_inj h⟩
  · exact absurd h hne
  · exact absurd h.symm hne
  · obtain ⟨hn, hpath⟩ := append_inj_of_class (fun _ => isDigit_of_mem_repr)
      (fun _ => isDigit_of_mem_repr) isDigit_head?_pathText isDigit_head?_pathText
        (List.cons.inj h).2
    rw [hn]
    exact ⟨rfl, pathText_inj hpath⟩

/-- The signs behind the name of a function, and the first of them. -/
theorem ending_chars (r : Root) (path : List Nat) :
    (∀ c ∈ r.number ++ pathText path, c = '#' ∨ c = '$' ∨ c.isDigit = true) ∧
      ∀ c ∈ (r.number ++ pathText path).head?, c = '#' ∨ c = '$' := by
  have hpath : ∀ c ∈ pathText path, c = '$' ∨ c.isDigit = true := by
    intro c hc
    obtain ⟨n, _, hc⟩ := List.mem_flatMap.mp hc
    exact (List.mem_cons.mp hc).imp_right isDigit_of_mem_repr
  rcases r.number_eq with hr | ⟨n, hr⟩ <;> rw [hr]
  · exact ⟨fun c hc => Or.inr (hpath c hc), fun c hc => Or.inr (head?_pathText hc)⟩
  · refine ⟨fun c hc => ?_, fun c hc => Or.inl (Option.some.inj hc).symm⟩
    rcases List.mem_append.mp hc with hc | hc
    · exact (List.mem_cons.mp hc).imp_right fun hc => Or.inr (isDigit_of_mem_repr hc)
    · exact Or.inr (hpath c hc)

/-- **Main statement**: a key is written from one label only. -/
theorem text_inj {l l' : Label} (h : l.root.Written) (h' : l'.root.Written)
    (heq : l.text = l'.text) : l = l' := by
  have hparts := congrArg String.toList heq
  simp only [toList_text, Root.toList_text, List.append_assoc, List.cons_append] at hparts
  have hdot : ∀ {l : Label}, l.root.Written →
      '.' ∉ l.root.name.toList ++ (l.root.number ++ pathText l.path) := by
    intro l hl hmem
    rcases List.mem_append.mp hmem with hmem | hmem
    · have hchar := Text.isNameChar_of_isIdentifier hl.isIdentifier_name hmem
      rw [Text.isNameChar_sign (by simp)] at hchar
      cases hchar
    · rcases (ending_chars _ _).1 '.' hmem with hc | hc | hc <;> exact absurd hc (by decide)
  have hsign : ∀ {l : Label}, ∀ c ∈ (l.root.number ++ pathText l.path).head?,
      Text.isNameChar c = false := by
    intro l c hc
    rcases (ending_chars _ _).2 c hc with rfl | rfl <;> exact Text.isNameChar_sign (by simp)
  obtain ⟨hfront, hbehind⟩ := append_dot_inj (hdot h) (hdot h') hparts
  obtain ⟨hname, hending⟩ := append_inj_of_class
    (fun _ => Text.isNameChar_of_isIdentifier h.isIdentifier_name)
    (fun _ => Text.isNameChar_of_isIdentifier h'.isIdentifier_name) hsign hsign hbehind
  obtain ⟨hnumber, hpath⟩ := ending_inj hending
  have hroot := Root.eq_of_parts h h' hfront (String.toList_inj.mp hname) hnumber
  obtain ⟨root, path⟩ := l
  obtain ⟨root', path'⟩ := l'
  exact congrArg₂ Label.mk hroot hpath

end Label

end CallAtlas
