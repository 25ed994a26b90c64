import CallAtlas.FileTree
import Mathlib.Data.List.Nodup
import Mathlib.Data.List.Perm.Basic

/-!
# Trees of files

In a directory no name stands twice (`Distinct`), so what is looked up under a name is the entry of
that name. A directory has no order of its own: which entry comes first is up to whoever lists it.
Trees that differ in the order of entries only, at any depth, are `Shuffled`.
-/

set_option autoImplicit false

namespace CallAtlas.FileTree

variable {t u : FileTree} {entries : List (String × FileTree)} {name : String}

/-- No directory has two entries of one name. -/
inductive Distinct : FileTree → Prop
  | file (text : Option String) : Distinct (.file text)
  | dir {entries : List (String × FileTree)} (hnames : (entries.map Prod.fst).Nodup)
      (hentries : ∀ e ∈ entries, Distinct e.2) : Distinct (.dir entries)

/-- The same files and directories, with the entries of directories in another order. -/
inductive Shuffled : FileTree → FileTree → Prop
  | refl (t : FileTree) : Shuffled t t
  | perm {entries entries' : List (String × FileTree)} (h : entries.Perm entries') :
      Shuffled (.dir entries) (.dir entries')
  | entry (before after : List (String × FileTree)) (name : String) {t t' : FileTree}
      (h : Shuffled t t') :
      Shuffled (.dir (before ++ (name, t) :: after)) (.dir (before ++ (name, t') :: after))
  | trans {t u v : FileTree} (h : Shuffled t u) (h' : Shuffled u v) : Shuffled t v

/-! ## Looking up -/

theorem lookup_eq_some_iff_mem (hnames : (entries.map Prod.fst).Nodup) :
    entries.lookup name = some t ↔ (name, t) ∈ entries := by
  induction entries with
  | nil => simp
  | cons e rest ih =>
    obtain ⟨n, u⟩ := e
    rw [List.map_cons, List.nodup_cons] at hnames
    rw [List.lookup_cons, List.mem_cons, Prod.mk.injEq]
    by_cases h : name = n
    · subst h
      have hrest : (name, t) ∉ rest := fun hmem => hnames.1 (List.mem_map.mpr ⟨_, hmem, rfl⟩)
      simp only [beq_self_eq_true, Option.some.injEq, true_and, hrest, or_false]
      exact eq_comm
    · rw [beq_eq_false_iff_ne.mpr h]
      simp only [h, false_and, false_or]
      exact ih hnames.2

theorem find_append (t : FileTree) (path rest : Path) :
    t.find (path ++ rest) = t.find path >>= fun u => u.find rest := by
  induction path generalizing t with
  | nil => rfl
  | cons name path ih =>
    cases t with
    | file text => rfl
    | dir entries =>
      rw [List.cons_append, find, find]
      cases entries.lookup name with
      | none => rfl
      | some u => exact ih u

theorem find_append_of_ok {path : Path} (h : t.find path = .ok u) (rest : Path) :
    t.find (path ++ rest) = u.find rest := by
  rw [find_append, h]
  rfl

theorem find_cons_of_lookup (h : entries.lookup name = some t) (path : Path) :
    (FileTree.dir entries).find (name :: path) = t.find path := by
  rw [find, h]

/-- What has a name stands in a directory. -/
theorem find_concat_iff {path : Path} : t.find (path ++ [name]) = .ok u ↔
    ∃ entries, t.find path = .ok (.dir entries) ∧ entries.lookup name = some u := by
  rw [find_append]
  cases t.find path with
  | error e => simp [bind, Except.bind]
  | ok v =>
    cases v with
    | file text => simp [bind, Except.bind, find]
    | dir entries =>
      cases hlookup : entries.lookup name <;> simp [bind, Except.bind, find, hlookup]

theorem hasFile_iff {path : Path} :
    t.hasFile path = true ↔ ∃ text, t.find path = .ok (.file text) := by
  unfold hasFile
  cases t.find path with
  | error e => simp
  | ok u => cases u <;> simp [isFile]

/-- What stands anywhere in a tree with distinct names has distinct names. -/
theorem Distinct.find (h : t.Distinct) {path : Path} (hfind : t.find path = .ok u) :
    u.Distinct := by
  induction path generalizing t with
  | nil =>
    obtain rfl : t = u := Except.ok.inj hfind
    exact h
  | cons name path ih =>
    cases h with
    | file text => cases hfind
    | @dir entries hnames hentries =>
      cases hlookup : entries.lookup name with
      | none =>
        rw [FileTree.find, hlookup] at hfind
        cases hfind
      | some v =>
        rw [find_cons_of_lookup hlookup] at hfind
        exact ih (hentries _ ((lookup_eq_some_iff_mem hnames).mp hlookup)) hfind

/-! ## Shuffling -/

theorem Shuffled.distinct (h : Shuffled t u) (ht : t.Distinct) : u.Distinct := by
  induction h with
  | refl t => exact ht
  | perm h =>
    obtain _ | ⟨hnames, hentries⟩ := ht
    exact .dir ((h.map Prod.fst).nodup_iff.mp hnames) fun e he => hentries e (h.mem_iff.mpr he)
  | entry before after name _ ih =>
    obtain _ | ⟨hnames, hentries⟩ := ht
    refine .dir (by simpa using hnames) fun e he => ?_
    rcases List.mem_append.mp he with he | he
    · exact hentries e (List.mem_append_left _ he)
    · rcases List.mem_cons.mp he with rfl | he
      · exact ih (hentries _ (List.mem_append_right _ List.mem_cons_self))
      · exact hentries e (List.mem_append_right _ (List.mem_cons_of_mem _ he))
  | trans _ _ ih ih' => exact ih' (ih ht)

/-- There is nothing to shuffle in a file. -/
theorem Shuffled.eq_file (h : Shuffled t u) {text : Option String} (ht : t = .file text) :
    u = .file text := by
  induction h with
  | refl t => exact ht
  | perm _ => cases ht
  | entry _ _ _ _ _ => cases ht
  | trans _ _ ih ih' => exact ih' (ih ht)

theorem lookup_eq_of_perm {entries' : List (String × FileTree)} (h : entries.Perm entries')
    (hnames : (entries.map Prod.fst).Nodup) (name : String) :
    entries.lookup name = entries'.lookup name := by
  refine Option.ext fun t => ?_
  rw [lookup_eq_some_iff_mem hnames, lookup_eq_some_iff_mem ((h.map Prod.fst).nodup_iff.mp hnames)]
  exact h.mem_iff

theorem Shuffled.symm (h : Shuffled t u) : Shuffled u t := by
  induction h with
  | refl t => exact .refl t
  | perm h => exact .perm h.symm
  | entry before after name _ ih => exact .entry before after name ih
  | trans _ _ ih ih' => exact ih'.trans ih

/-- What stands at a path stands there in the shuffled tree, shuffled. -/
theorem Shuffled.find (h : Shuffled t u) (ht : t.Distinct) {path : Path} {v : FileTree}
    (hv : t.find path = .ok v) : ∃ w, u.find path = .ok w ∧ Shuffled v w := by
  induction h generalizing path v with
  | refl t => exact ⟨v, hv, .refl v⟩
  | @perm entries entries' h =>
    obtain _ | ⟨hnames, _⟩ := ht
    cases path with
    | nil => exact ⟨.dir entries', rfl, Except.ok.inj hv ▸ .perm h⟩
    | cons name path =>
      rw [FileTree.find, lookup_eq_of_perm h hnames] at hv
      exact ⟨v, hv, .refl v⟩
  | @entry before after n t t' h ih =>
    obtain _ | ⟨_, hentries⟩ := ht
    cases path with
    | nil => exact ⟨_, rfl, Except.ok.inj hv ▸ .entry before after n h⟩
    | cons name path =>
      simp only [FileTree.find, List.lookup_append, List.lookup_cons] at hv ⊢
      cases hbefore : before.lookup name with
      | some w =>
        rw [hbefore] at hv
        exact ⟨v, hv, .refl v⟩
      | none =>
        rw [hbefore] at hv
        cases hname : name == n with
        | false =>
          rw [hname] at hv
          exact ⟨v, hv, .refl v⟩
        | true =>
          rw [hname] at hv
          exact ih (hentries _ (List.mem_append_right _ List.mem_cons_self)) hv
  | trans h _ ih ih' =>
    obtain ⟨w, hw, hvw⟩ := ih ht hv
    obtain ⟨x, hx, hwx⟩ := ih' (h.distinct ht) hw
    exact ⟨x, hx, hvw.trans hwx⟩

theorem Shuffled.hasFile_eq (h : Shuffled t u) (ht : t.Distinct) (path : Path) :
    u.hasFile path = t.hasFile path := by
  have hone {t u : FileTree} (h : Shuffled t u) (ht : t.Distinct) (hfile : t.hasFile path = true) :
      u.hasFile path = true := by
    obtain ⟨text, hfind⟩ := hasFile_iff.mp hfile
    obtain ⟨w, hw, hshuffled⟩ := h.find ht hfind
    exact hasFile_iff.mpr ⟨text, hshuffled.eq_file rfl ▸ hw⟩
  exact Bool.eq_iff_iff.mpr ⟨hone h.symm (h.distinct ht), hone h ht⟩

end CallAtlas.FileTree
