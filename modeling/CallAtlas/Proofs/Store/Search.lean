import CallAtlas.Proofs.Store.Agreement

/-!
# Searching for a text

The store in tables searches with a pattern: the text between two `%`, its own wildcards and
backslashes escaped. That this finds the text and nothing else takes two steps. Read back, an
escaped text is a row of plain characters (`Pattern.ofChars_literal`), so the pattern matches what
contains them (`Pattern.accepts_literal_iff`). And the case that a pattern ignores is gone on both
sides before they are compared, because a text in lower case has no ASCII capitals
(`Text.lowerAscii_of_mem_lower`).

The store in memory compares texts in lower case. Both see the same where everything is ASCII;
beyond it, names and packages are in lower case for one store and not for the other.
-/

set_option autoImplicit false

namespace CallAtlas

/-! ## Texts in lower case -/

namespace Text

/-- All characters are ASCII. -/
def isAscii (s : String) : Bool := s.toList.all fun c => c.toNat < 128

theorem isInfix_iff {needle cs : List Char} : isInfix needle cs = true ↔ needle <:+: cs := by
  induction cs with
  | nil => simp [isInfix]
  | cons c cs ih =>
    rw [isInfix, Bool.or_eq_true, ih, List.isPrefixOf_iff_prefix, List.infix_cons_iff]

theorem contains_iff {needle s : String} : contains needle s = true ↔ needle.toList <:+: s.toList :=
  isInfix_iff

theorem lowerAscii_of_capital {c : Char} (hlow : 65 ≤ c.toNat) (hhigh : c.toNat ≤ 90) :
    lowerAscii c = Char.ofNat (c.toNat + 32) := by
  have hcapital : 'A' ≤ c ∧ c ≤ 'Z' := ⟨hlow, hhigh⟩
  simp [lowerAscii, hcapital]

theorem lowerAscii_of_not_capital {c : Char} (h : c.toNat < 65 ∨ 90 < c.toNat) :
    lowerAscii c = c := by
  have hcapital : ¬ ('A' ≤ c ∧ c ≤ 'Z') := by
    rintro ⟨hlow, hhigh⟩
    have hlow' : 65 ≤ c.toNat := hlow
    have hhigh' : c.toNat ≤ 90 := hhigh
    omega
  simp only [lowerAscii, Bool.and_eq_true, decide_eq_true_eq, if_neg hcapital]

theorem lowerAscii_ofNat {n : Nat} (h : 90 < n) : lowerAscii (Char.ofNat n) = Char.ofNat n := by
  apply lowerAscii_of_not_capital
  by_cases hvalid : n.isValidChar
  · rw [Char.ofNat, dif_pos hvalid]
    exact Or.inr h
  · rw [Char.ofNat, dif_neg hvalid]
    exact Or.inl (by decide)

theorem lowerAscii_lowerAscii (c : Char) : lowerAscii (lowerAscii c) = lowerAscii c := by
  by_cases hcapital : 65 ≤ c.toNat ∧ c.toNat ≤ 90
  · rw [lowerAscii_of_capital hcapital.1 hcapital.2, lowerAscii_ofNat (by omega)]
  · have hself : lowerAscii c = c := lowerAscii_of_not_capital (by omega)
    rw [hself, hself]

/-- No run leads down to a capital of ASCII. -/
theorem lowerRuns_above : lowerRuns.all (fun r => 90 < (r.1 : Int) + r.2.2.2) = true := by
  decide +kernel

theorem lowerAscii_of_mem_lowerChar {c d : Char} (h : d ∈ lowerChar c) : lowerAscii d = d := by
  simp only [lowerChar] at h
  split at h
  · rw [List.mem_singleton.mp h, lowerAscii_lowerAscii]
  · rename_i hbeyond
    split at h
    · rcases List.mem_cons.mp h with rfl | h
      · decide
      · rw [List.mem_singleton.mp h]
        decide
    · split at h
      · rename_i r hr
        have hrun := Array.find?_some hr
        simp only [Bool.and_eq_true, decide_eq_true_eq] at hrun
        have habove := Array.all_eq_true'.mp lowerRuns_above r (Array.mem_of_find?_eq_some hr)
        rw [decide_eq_true_eq] at habove
        rw [List.mem_singleton.mp h]
        apply lowerAscii_ofNat
        omega
      · rw [List.mem_singleton.mp h]
        exact lowerAscii_of_not_capital (by omega)

theorem lowerAscii_of_mem_lowerFrom {before cs : List Char} {d : Char}
    (h : d ∈ lowerFrom before cs) : lowerAscii d = d := by
  induction cs generalizing before with
  | nil => exact absurd h List.not_mem_nil
  | cons c cs ih =>
    rw [lowerFrom] at h
    rcases List.mem_append.mp h with h | h
    · split at h
      · split at h
        · rw [List.mem_singleton.mp h]
          decide
        · rw [List.mem_singleton.mp h]
          decide
      · exact lowerAscii_of_mem_lowerChar h
    · exact ih h

/-- A text in lower case has no capitals that ASCII would fold. -/
theorem lowerAscii_of_mem_lower {s : String} {d : Char} (h : d ∈ (lower s).toList) :
    lowerAscii d = d := by
  rw [lower, String.toList_ofList] at h
  exact lowerAscii_of_mem_lowerFrom h

theorem map_lowerAscii_lower (s : String) : (lower s).toList.map lowerAscii = (lower s).toList := by
  conv_rhs => rw [← List.map_id (lower s).toList]
  exact List.map_congr_left fun d hd => lowerAscii_of_mem_lower hd

theorem map_lowerAscii_lowerAsciiAll (s : String) :
    (lowerAsciiAll s).toList.map lowerAscii = (lowerAsciiAll s).toList := by
  rw [lowerAsciiAll, String.toList_ofList, List.map_map]
  exact List.map_congr_left fun c _ => lowerAscii_lowerAscii c

theorem lowerFrom_of_ascii {before cs : List Char} (h : ∀ c ∈ cs, c.toNat < 128) :
    lowerFrom before cs = cs.map lowerAscii := by
  induction cs generalizing before with
  | nil => rfl
  | cons c cs ih =>
    obtain ⟨hc, hcs⟩ := List.forall_mem_cons.mp h
    -- the letter that depends on its neighbours lies far beyond ASCII
    have hsigma : (c.toNat == 0x3A3) = false := by
      rw [beq_eq_false_iff_ne]
      omega
    rw [lowerFrom, hsigma, ih hcs, lowerChar, if_pos hc]
    rfl

theorem lower_of_isAscii {s : String} (h : isAscii s = true) : lower s = lowerAsciiAll s := by
  have hchars : ∀ c ∈ s.toList, c.toNat < 128 := by simpa [isAscii] using h
  rw [lower, lowerFrom_of_ascii hchars, lowerAsciiAll]

end Text

namespace Store

/-! ## Patterns for a text -/

namespace Pattern

theorem ofChars_escaped (c : Char) (rest : List Char) :
    ofChars ('\\' :: c :: rest) = (ofChars rest).map (.char c :: ·) := rfl

theorem ofChars_percent (rest : List Char) :
    ofChars ('%' :: rest) = (ofChars rest).map (.anyText :: ·) := by
  simp [ofChars]

theorem ofChars_plain {c : Char} (hpercent : c ≠ '%') (hunderscore : c ≠ '_')
    (hbackslash : c ≠ '\\') (rest : List Char) :
    ofChars (c :: rest) = (ofChars rest).map (.char c :: ·) := by
  simp [ofChars, hpercent, hunderscore, hbackslash]

/-- An escaped text is read back as its characters. -/
theorem ofChars_literal (cs rest : List Char) :
    ofChars (literal cs ++ rest) = (ofChars rest).map (cs.map .char ++ ·) := by
  induction cs with
  | nil => simp [literal]
  | cons c cs ih =>
    have hcons : literal (c :: cs) =
        (if c = '%' || c = '_' || c = '\\' then ['\\', c] else [c]) ++ literal cs := by
      simp [literal]
    have hchar : ofChars (literal (c :: cs) ++ rest) =
        (ofChars (literal cs ++ rest)).map (.char c :: ·) := by
      by_cases hspecial : c = '%' ∨ c = '_' ∨ c = '\\'
      · rw [hcons, if_pos (by simpa [or_assoc] using hspecial)]
        exact ofChars_escaped c _
      · rw [hcons, if_neg (by simpa [or_assoc] using hspecial)]
        simp only [not_or] at hspecial
        exact ofChars_plain hspecial.1 hspecial.2.1 hspecial.2.2 _
    rw [hchar, ih, Option.map_map]
    rfl

theorem anySuffix_iff {q : List Char → Bool} {cs : List Char} :
    anySuffix q cs = true ↔ ∃ front back, cs = front ++ back ∧ q back = true := by
  induction cs with
  | nil => simp [anySuffix]
  | cons c cs ih =>
    rw [anySuffix, Bool.or_eq_true, ih]
    constructor
    · rintro (h | ⟨front, back, rfl, h⟩)
      · exact ⟨[], c :: cs, rfl, h⟩
      · exact ⟨c :: front, back, rfl, h⟩
    · rintro ⟨front, back, heq, h⟩
      cases front with
      | nil =>
        rw [List.nil_append] at heq
        exact Or.inl (heq ▸ h)
      | cons d front =>
        obtain ⟨rfl, rfl⟩ := List.cons.inj heq
        exact Or.inr ⟨front, back, rfl, h⟩

/-- Characters in front of a pattern match, up to the case of ASCII, themselves in front of the
text. -/
theorem matchesAll_chars_iff {cs text : List Char} {items : List PatternItem} :
    matchesAll (cs.map .char ++ items) text = true ↔
      ∃ front back, text = front ++ back ∧ front.map Text.lowerAscii = cs.map Text.lowerAscii ∧
        matchesAll items back = true := by
  induction cs generalizing text with
  | nil => simp
  | cons c cs ih =>
    cases text with
    | nil => simp [matchesAll]
    | cons d text =>
      rw [List.map_cons, List.cons_append, matchesAll, Bool.and_eq_true, beq_iff_eq, ih]
      constructor
      · rintro ⟨hfirst, front, back, rfl, hfront, hback⟩
        exact ⟨d :: front, back, rfl, by rw [List.map_cons, List.map_cons, hfirst, hfront], hback⟩
      · rintro ⟨front, back, heq, hfront, hback⟩
        cases front with
        | nil => cases hfront
        | cons e front =>
          obtain ⟨rfl, rfl⟩ := List.cons.inj heq
          obtain ⟨hfirst, hrest⟩ := List.cons.inj hfront
          exact ⟨hfirst.symm, front, back, rfl, hrest, hback⟩

/-- **A text between two wildcards matches what contains it**, up to the case of ASCII, whatever
characters it has. -/
theorem accepts_literal_iff (cs text : List Char) :
    accepts ('%' :: literal cs ++ ['%']) text = true ↔
      cs.map Text.lowerAscii <:+: text.map Text.lowerAscii := by
  have hitems : ofChars ('%' :: literal cs ++ ['%']) =
      some (.anyText :: (cs.map .char ++ [.anyText])) := by
    rw [List.cons_append, ofChars_percent, ofChars_literal, ofChars_percent]
    rfl
  rw [accepts, hitems]
  simp only [matchesAll, anySuffix_iff, matchesAll_chars_iff]
  constructor
  · rintro ⟨before, _, rfl, found, after, rfl, hfound, _⟩
    refine ⟨before.map Text.lowerAscii, after.map Text.lowerAscii, ?_⟩
    rw [← hfound, ← List.map_append, ← List.map_append, List.append_assoc]
  · rintro ⟨before, after, heq⟩
    obtain ⟨first, back, rfl, hfirst, rfl⟩ := List.map_eq_append_iff.mp heq.symm
    obtain ⟨front, found, rfl, _, hfound⟩ := List.map_eq_append_iff.mp hfirst
    refine ⟨front, found ++ back, List.append_assoc front found back, found, back, rfl, hfound,
      back, [], (List.append_nil back).symm, rfl⟩

end Pattern

/-! ## Nodes that are found -/

/-- The text, in lower case, stands in the name or in the package, whose ASCII capitals are in lower
case. -/
def Mentions (query : String) (n : GraphNode) : Prop :=
  (Text.lower query).toList <:+: (Text.lowerAsciiAll n.name).toList ∨
    (Text.lower query).toList <:+: (Text.lowerAsciiAll n.package).toList

variable {nodes : List GraphNode} {edges : List GraphEdge}

theorem Tables.search_eq_take {t : Tables} {query : String} {limit : Nat}
    (h : limit ≤ maxLimit ∨ (t.nodes.filter (finds query)).length ≤ maxLimit) :
    t.search query limit = (t.nodes.filter (finds query)).take limit := by
  rw [search, List.take_eq_take_iff]
  omega

theorem Tables.finds_iff {query : String} {row : GraphNode} :
    finds query row = true ↔ Mentions query row := by
  rw [finds, Bool.or_eq_true, Pattern.accepts_literal_iff, Pattern.accepts_literal_iff,
    Text.map_lowerAscii_lower, Text.map_lowerAscii_lowerAsciiAll, Text.map_lowerAscii_lowerAsciiAll]
  rfl

theorem Memory.finds_iff {query : String} {n : GraphNode} (hname : Text.isAscii n.name = true)
    (hpackage : Text.isAscii n.package = true) : finds query n = true ↔ Mentions query n := by
  rw [finds, Bool.or_eq_true, Text.contains_iff, Text.contains_iff, Text.lower_of_isAscii hname,
    Text.lower_of_isAscii hpackage]
  rfl

/-- Saves an item in memory. -/
def Memory.save (s : Memory) : Item → Memory
  | .node node => s.saveNode node
  | .edge edge => s.saveEdge edge

/-- Saves an item in the tables. -/
def Tables.save (t : Tables) : Item → Tables
  | .node node => t.saveNode node
  | .edge edge => t.saveEdge edge

theorem saveAll_memory (s : Memory) (items : List Item) :
    (Store.memory s).saveAll items = .ok (.memory (items.foldl Memory.save s)) := by
  induction items generalizing s with
  | nil => rfl
  | cons item rest ih =>
    cases item with
    | node node => exact ih (s.saveNode node)
    | edge edge => exact ih (s.saveEdge edge)

theorem saveAll_tables (t : Tables) (items : List Item) :
    (Store.database { tables := some t }).saveAll items =
      .ok (.database { tables := some (items.foldl Tables.save t) }) := by
  induction items generalizing t with
  | nil => rfl
  | cons item rest ih =>
    cases item with
    | node node => exact ih (t.saveNode node)
    | edge edge => exact ih (t.saveEdge edge)

theorem Tables.Keeps.mem_filter_finds {t : Tables} (h : t.Keeps nodes edges) {query : String}
    {row : GraphNode} : row ∈ t.nodes.filter (finds query) ↔
      (∃ n, latest? nodes row.key = some n ∧ n.bare = row) ∧ Mentions query row := by
  rw [List.mem_filter, finds_iff, h.mem_nodes, Option.map_eq_some_iff]

/-- Where names and packages are ASCII and nodes are saved bare, the store in memory finds what the
tables find. -/
theorem Memory.Keeps.sorted_filter_finds {s : Memory} {t : Tables} (h : s.Keeps nodes edges)
    (h' : t.Keeps nodes edges) (hbare : ∀ n ∈ nodes, n.bare = n)
    (hascii : ∀ n ∈ nodes, Text.isAscii n.name = true ∧ Text.isAscii n.package = true)
    (query : String) :
    sorted (s.nodes.values.filter (finds query)) = t.nodes.filter (Tables.finds query) := by
  have hnodup : ((s.nodes.values.filter (finds query)).map GraphNode.key).Nodup :=
    h.nodup_keys_values.sublist (List.filter_sublist.map _)
  apply (ascending_sorted hnodup).eq_of_mem_iff (h'.ascending.sublist List.filter_sublist)
  intro n
  rw [sorted, List.mem_mergeSort, List.mem_filter, h.mem_values, List.mem_filter, h'.mem_nodes,
    map_bare_latest? hbare]
  apply and_congr_right
  intro hlatest
  have hmem : n ∈ nodes := List.mem_reverse.mp (List.mem_of_find?_eq_some hlatest)
  rw [finds_iff (hascii n hmem).1 (hascii n hmem).2, Tables.finds_iff]

/-- **A search finds a text as it stands, in the order of keys, up to the limit.** Whatever nodes
are saved, with edges in between or not, there is for every text one list of rows by strictly
increasing keys: the last node saved under each key, without callers and callees, if the text in
lower case is a piece of its name or of its package with their ASCII capitals in lower case. No
character of the text has a meaning of its own. The store in tables answers with the first rows of
the list, as many as are asked for (more than `maxLimit` rows are never given). If names and
packages are ASCII and the nodes were saved without callers and callees, the store in memory gives
the same answer. -/
theorem search_finds_mentions (items : List Item) :
    ∃ memory database,
      (Store.memory {}).init.saveAll items = .ok memory ∧
      (Store.database {}).init.saveAll items = .ok database ∧
      ∀ query limit, ∃ found : List GraphNode,
        (found.Pairwise fun a b => a.key < b.key) ∧
        (∀ row, row ∈ found ↔
          (∃ n, latest? (items.filterMap Item.node?) row.key = some n ∧ n.bare = row) ∧
            Mentions query row) ∧
        database.search query limit = .ok (found.take (min limit Tables.maxLimit)) ∧
        (limit ≤ Tables.maxLimit ∨ found.length ≤ Tables.maxLimit →
          database.search query limit = .ok (found.take limit) ∧
          ((∀ n, .node n ∈ items → Text.isAscii n.name = true ∧ Text.isAscii n.package = true ∧
              n.parents = [] ∧ n.children = []) →
            memory.search query limit = database.search query limit)) := by
  have hinit : Keeps [] [] (Store.memory {}).init := keeps_init (by simp)
  have hinit' : Keeps [] [] (Store.database {}).init := keeps_init (by simp)
  obtain ⟨memory, hmemory, hkept⟩ := hinit.saveAll items
  obtain ⟨database, hdatabase, hkept'⟩ := hinit'.saveAll items
  rw [List.nil_append, List.nil_append] at hkept hkept'
  -- each store is still of its kind
  obtain rfl := Except.ok.inj ((saveAll_memory {} items).symm.trans hmemory)
  obtain rfl := Except.ok.inj ((saveAll_tables {} items).symm.trans hdatabase)
  obtain ⟨t, ht, hrows⟩ := hkept'
  obtain rfl := Option.some.inj ht
  refine ⟨_, _, hmemory, hdatabase, fun query limit =>
    ⟨_, hrows.ascending.sublist List.filter_sublist, fun row => hrows.mem_filter_finds, rfl,
      fun hlimit => ?_⟩⟩
  have htables : (Store.database { tables := some (items.foldl Tables.save {}) }).search query
      limit = .ok (((items.foldl Tables.save {}).nodes.filter (Tables.finds query)).take limit) :=
    congrArg Except.ok (Tables.search_eq_take hlimit)
  refine ⟨htables, fun hplain => ?_⟩
  have hbare : ∀ n ∈ items.filterMap Item.node?, n.bare = n := by
    intro n hn
    obtain ⟨_, _, hparents, hchildren⟩ := hplain n (mem_filterMap_node?.mp hn)
    exact bare_eq_self hparents hchildren
  have hascii : ∀ n ∈ items.filterMap Item.node?,
      Text.isAscii n.name = true ∧ Text.isAscii n.package = true := by
    intro n hn
    obtain ⟨hname, hpackage, _⟩ := hplain n (mem_filterMap_node?.mp hn)
    exact ⟨hname, hpackage⟩
  rw [htables, ← Memory.Keeps.sorted_filter_finds hkept hrows hbare hascii query]
  rfl

/-- Names and packages with the characters that patterns give a meaning to, and one in whose place
`_` could stand. -/
def wildcards : List Item :=
  [.node { key := "m.d", package := "m", name := "a_b" },
   .node { key := "m.c", package := "m/A_b%/x", name := "f" },
   .node { key := "m.b", package := "m", name := "axb%" },
   .edge ⟨"m.b", "m.a"⟩,
   .node { key := "m.a", package := "m", name := "draft" },
   .node { key := "m.a", package := "m", name := "\\A_B%" }]

theorem search_finds_mentions_wildcards :
    (∀ n, .node n ∈ wildcards → Text.isAscii n.name = true ∧ Text.isAscii n.package = true ∧
      n.parents = [] ∧ n.children = []) ∧
    1 ≤ Tables.maxLimit ∧ 7 ≤ Tables.maxLimit ∧
    ∃ memory database, (Store.memory {}).init.saveAll wildcards = .ok memory ∧
      (Store.database {}).init.saveAll wildcards = .ok database ∧
      memory.search "a_B%" 7 = .ok [{ key := "m.a", package := "m", name := "\\A_B%" },
        { key := "m.c", package := "m/A_b%/x", name := "f" }] ∧
      memory.search "\\" 1 = .ok [{ key := "m.a", package := "m", name := "\\A_B%" }] ∧
      memory.search "%%" 7 = .ok [] := by
  have hplain : ∀ n, .node n ∈ wildcards → Text.isAscii n.name = true ∧
      Text.isAscii n.package = true ∧ n.parents = [] ∧ n.children = [] := by
    simp [wildcards, Text.isAscii]
  have hone : 1 ≤ Tables.maxLimit := by decide
  have hseven : 7 ≤ Tables.maxLimit := by decide
  obtain ⟨memory, database, hmemory, hdatabase, hsearch⟩ := search_finds_mentions wildcards
  have hsame : ∀ query, ∀ limit ≤ Tables.maxLimit,
      memory.search query limit = database.search query limit := by
    intro query limit hlimit
    obtain ⟨found, _, _, _, hfound⟩ := hsearch query limit
    exact (hfound (Or.inl hlimit)).2 hplain
  obtain rfl := Except.ok.inj ((saveAll_tables {} wildcards).symm.trans hdatabase)
  refine ⟨hplain, hone, hseven, memory, _, hmemory, hdatabase, ?_, ?_, ?_⟩
  · rw [hsame _ _ hseven]
    decide +kernel
  · rw [hsame _ _ hone]
    decide +kernel
  · rw [hsame _ _ hseven]
    decide +kernel

end Store

end CallAtlas
