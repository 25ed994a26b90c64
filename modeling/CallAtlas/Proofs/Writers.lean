import CallAtlas.Pipeline

/-!
# What writers count and report

A writer offers its items to a save one after another (`Offers`). Its tally then counts the
answers and has reported the multiples of its interval among the numbers of items saved
(`Tally.Accounts`). A refusal moves neither that number nor the reports, so it makes no difference
where the refusals fall.
-/

set_option autoImplicit false

namespace CallAtlas

/-! ## Tallies -/

/-- The numbers that are reported while the first `n` items are saved. -/
def reported (interval n : Nat) : List Nat := (List.range' 1 n).filter (interval ∣ ·)

theorem mem_reported {interval n k : Nat} :
    k ∈ reported interval n ↔ interval ∣ k ∧ 1 ≤ k ∧ k ≤ n := by
  rw [reported, List.mem_filter, List.mem_range'_1, decide_eq_true_iff]
  omega

theorem pairwise_reported (interval n : Nat) : (reported interval n).Pairwise (· < ·) :=
  List.Pairwise.filter _ List.pairwise_lt_range'

theorem reported_succ (interval n : Nat) :
    reported interval (n + 1) =
      reported interval n ++ if (n + 1) % interval = 0 then [n + 1] else [] := by
  rw [reported, List.range'_1_concat, List.filter_append, Nat.add_comm 1 n, ← reported]
  by_cases hdvd : interval ∣ n + 1
  · simp [hdvd, Nat.mod_eq_zero_of_dvd hdvd]
  · simp [hdvd, mt Nat.dvd_of_mod_eq_zero hdvd]

namespace Tally

variable {label : String} {interval : Nat} {answers : List Attempt} {t : Tally}

/-- The tally after one more answer. -/
def add (label : String) (interval : Nat) (t : Tally) : Attempt → Tally
  | .saved => t.addSaved label interval
  | .refused => t.addFailed
  | .crashed => t

/-- The tally says what the answers were. -/
structure Accounts (label : String) (interval : Nat) (answers : List Attempt)
    (t : Tally) : Prop where
  saved : t.saved = answers.count .saved
  failed : t.failed = answers.count .refused
  messages : t.messages = (reported interval t.saved).map fun k => s!"Saved {k} {label}"

theorem accounts_nil : Accounts label interval [] {} := ⟨rfl, rfl, rfl⟩

theorem Accounts.addSaved (h : Accounts label interval answers t) :
    Accounts label interval (answers ++ [.saved]) (t.addSaved label interval) where
  saved := by
    rw [List.count_append, ← h.saved]
    rfl
  failed := by
    rw [List.count_append, ← h.failed]
    rfl
  messages := by
    show (if (t.saved + 1) % interval = 0 then t.messages ++ [s!"Saved {t.saved + 1} {label}"]
      else t.messages) = (reported interval (t.saved + 1)).map _
    rw [reported_succ, List.map_append, ← h.messages]
    split
    · rfl
    · exact (List.append_nil _).symm

theorem Accounts.addFailed (h : Accounts label interval answers t) :
    Accounts label interval (answers ++ [.refused]) t.addFailed where
  saved := by
    rw [List.count_append, ← h.saved]
    rfl
  failed := by
    rw [List.count_append, ← h.failed]
    rfl
  messages := h.messages

theorem Accounts.add (h : Accounts label interval answers t) {answer : Attempt}
    (hne : answer ≠ .crashed) :
    Accounts label interval (answers ++ [answer]) (t.add label interval answer) := by
  cases answer with
  | saved => exact h.addSaved
  | refused => exact h.addFailed
  | crashed => exact absurd rfl hne

theorem Accounts.foldl {later : List Attempt} (h : Accounts label interval answers t)
    (hne : .crashed ∉ later) :
    Accounts label interval (answers ++ later) (later.foldl (Tally.add label interval) t) := by
  induction later generalizing answers t with
  | nil => rwa [List.append_nil]
  | cons answer later ih =>
    obtain ⟨hanswer, hlater⟩ := List.ne_and_not_mem_of_not_mem_cons hne
    rw [List.append_cons]
    exact ih (h.add hanswer.symm) hlater

/-- Every answer but a crash is counted. -/
theorem Accounts.saved_add_failed (h : Accounts label interval answers t)
    (hne : .crashed ∉ answers) : t.saved + t.failed = answers.length := by
  rw [h.saved, h.failed]
  clear h
  induction answers with
  | nil => rfl
  | cons answer answers ih =>
    obtain ⟨hanswer, hlater⟩ := List.ne_and_not_mem_of_not_mem_cons hne
    have hcounted := ih hlater
    cases answer with
    | saved => simp; omega
    | refused => simp; omega
    | crashed => exact absurd rfl hanswer

end Tally

/-! ## Items offered one after another -/

section Offers

variable {σ α : Type} {save : α → StateM σ Attempt} {label : String} {interval : Nat}

/-- From one state to another, the items are offered in order and each is answered,
without a crash. -/
inductive Offers (save : α → StateM σ Attempt) : σ → List (α × Attempt) → σ → Prop
  | nil (s : σ) : Offers save s [] s
  | cons {s s₁ s' : σ} {item : α} {answer : Attempt} {log : List (α × Attempt)} :
      (save item).run s = (answer, s₁) → answer ≠ .crashed → Offers save s₁ log s' →
        Offers save s ((item, answer) :: log) s'

theorem exists_offers (hsave : ∀ item s, ((save item).run s).1 ≠ .crashed)
    (items : List α) (s : σ) : ∃ log s', Offers save s log s' ∧ log.map Prod.fst = items := by
  induction items generalizing s with
  | nil => exact ⟨[], s, .nil s, rfl⟩
  | cons item items ih =>
    obtain ⟨log, s', hoffers, hitems⟩ := ih ((save item).run s).2
    exact ⟨(item, ((save item).run s).1) :: log, s', .cons rfl (hsave item s) hoffers,
      congrArg (item :: ·) hitems⟩

theorem Offers.not_crashed {s s' : σ} {log : List (α × Attempt)} (h : Offers save s log s') :
    .crashed ∉ log.map Prod.snd := by
  induction h with
  | nil => exact List.not_mem_nil
  | cons _ hne _ ih => exact List.not_mem_cons_of_ne_of_not_mem hne.symm ih

/-- One item of a writer. -/
theorem drain_cons {s s₁ : σ} {item : α} {answer : Attempt} {rest : List α} {t : Tally}
    (hrun : (save item).run s = (answer, s₁)) (hne : answer ≠ .crashed) :
    (drain label interval save (item :: rest) t).run s =
      (drain label interval save rest (t.add label interval answer)).run s₁ := by
  rw [drain, StateT.run_bind, hrun]
  cases answer with
  | saved => rfl
  | refused => rfl
  | crashed => exact absurd rfl hne

/-- All items of a writer: it ends with the tally of the answers, in the state after the last
one. -/
theorem Offers.drain {s s' : σ} {log : List (α × Attempt)} (h : Offers save s log s') (t : Tally) :
    (drain label interval save (log.map Prod.fst) t).run s =
      (some ((log.map Prod.snd).foldl (Tally.add label interval) t), s') := by
  induction h generalizing t with
  | nil => rfl
  | cons hrun hne _ ih =>
    rw [List.map_cons, drain_cons hrun hne, ih]
    rfl

theorem Offers.accounts {s s' : σ} {log : List (α × Attempt)} (h : Offers save s log s')
    (label : String) (interval : Nat) :
    ((log.map Prod.snd).foldl (Tally.add label interval) {}).Accounts label interval
      (log.map Prod.snd) :=
  Tally.accounts_nil.foldl h.not_crashed

/-- Saves an item and writes it down with the answer. -/
def logged (save : α → StateM σ Attempt) (item : α) : StateM (List (α × Attempt) × σ) Attempt :=
  fun s =>
  let answer := (save item).run s.2
  (answer.1, s.1 ++ [(item, answer.1)], answer.2)

theorem Offers.logged {s s' : σ} {log : List (α × Attempt)} (h : Offers save s log s')
    (before : List (α × Attempt)) :
    Offers (CallAtlas.logged save) (before, s) log (before ++ log, s') := by
  induction h generalizing before with
  | nil s =>
    rw [List.append_nil]
    exact .nil _
  | @cons s s₁ s' item answer log hrun hne _ ih =>
    rw [List.append_cons]
    refine .cons ?_ hne (ih _)
    show (((save item).run s).1, before ++ [(item, ((save item).run s).1)],
      ((save item).run s).2) = _
    rw [hrun]

/-- **A writer accounts for every item.** Whatever the answers, as long as no save crashes, a writer
ends with a tally. It offers each item once and in order, as the log of its saves shows; it counts
the items saved and those refused, which together are all of them; and it reports the multiples of
the interval up to the number saved, each once and in increasing order. -/
theorem drain_accounts_for_items (label : String) (interval : Nat) (save : α → StateM σ Attempt)
    (hsave : ∀ item s, ((save item).run s).1 ≠ .crashed) (items : List α) (s : σ) :
    ∃ (log : List (α × Attempt)) (tally : Tally) (s' : σ),
      (drain label interval save items {}).run s = (some tally, s') ∧
      (drain label interval (logged save) items {}).run ([], s) = (some tally, log, s') ∧
      log.map Prod.fst = items ∧
      tally.saved = (log.map Prod.snd).count .saved ∧
      tally.failed = (log.map Prod.snd).count .refused ∧
      tally.saved + tally.failed = items.length ∧
      ∃ multiples : List Nat, multiples.Pairwise (· < ·) ∧
        (∀ k, k ∈ multiples ↔ interval ∣ k ∧ 1 ≤ k ∧ k ≤ tally.saved) ∧
        tally.messages = multiples.map fun k => s!"Saved {k} {label}" := by
  obtain ⟨log, s', hoffers, rfl⟩ := exists_offers hsave items s
  have haccounts := hoffers.accounts label interval
  have hall := haccounts.saved_add_failed hoffers.not_crashed
  rw [List.length_map] at hall
  refine ⟨log, _, s', hoffers.drain {}, (hoffers.logged []).drain {}, rfl, haccounts.saved,
    haccounts.failed, ?_, reported interval _, pairwise_reported _ _, fun _ => mem_reported,
    haccounts.messages⟩
  rw [hall, List.length_map]

end Offers

/-- Counts the items it is offered and refuses every third. -/
def refuseThirds (_item : String) : StateM Nat Attempt := fun n =>
  (if (n + 1) % 3 = 0 then .refused else .saved, n + 1)

theorem drain_accounts_for_items_refuseThirds :
    (∀ item s, ((refuseThirds item).run s).1 ≠ .crashed) ∧
      ∃ (log : List (String × Attempt)) (tally : Tally) (s' : Nat),
        (drain "nodes" 2 refuseThirds ["a", "b", "c", "d", "e", "f", "a"] {}).run 0 =
          (some tally, s') ∧
        log.map Prod.fst = ["a", "b", "c", "d", "e", "f", "a"] ∧
        tally.saved = (log.map Prod.snd).count .saved ∧ tally.saved + tally.failed = 7 ∧
        tally = { saved := 5, failed := 2, messages := ["Saved 2 nodes", "Saved 4 nodes"] } := by
  have hsave : ∀ item s, ((refuseThirds item).run s).1 ≠ .crashed := by
    intro item s
    show (if (s + 1) % 3 = 0 then Attempt.refused else .saved) ≠ .crashed
    split <;> decide
  obtain ⟨log, tally, s', hrun, _, hitems, hsaved, _, hall, _⟩ :=
    drain_accounts_for_items "nodes" 2 refuseThirds hsave ["a", "b", "c", "d", "e", "f", "a"] 0
  refine ⟨hsave, log, tally, s', hrun, hitems, hsaved, hall, ?_⟩
  have hevaluated :
      ((drain "nodes" 2 refuseThirds ["a", "b", "c", "d", "e", "f", "a"] {}).run 0).1 =
      some { saved := 5, failed := 2, messages := ["Saved 2 nodes", "Saved 4 nodes"] } := by
    decide +kernel
  rw [hrun] at hevaluated
  exact Option.some.inj hevaluated

namespace Saver

variable {σ : Type} {saver : Saver σ}

theorem attempt_ne_crashed {ε : Type} (save : Store → Except ε Store) (s : Store) :
    ((attempt save).run s).1 ≠ .crashed := by
  show (attempt save s).1 ≠ .crashed
  unfold attempt
  split <;> simp

/-- If both writers end, their tallies are put together. -/
theorem write_run {nodes : List GraphNode} {edges : List GraphEdge} {s s₁ s' : σ} {n e : Tally}
    (hnodes : (drain "nodes" nodeInterval saver.node nodes {}).run s = (some n, s₁))
    (hedges : (drain "edges" edgeInterval saver.edge edges {}).run s₁ = (some e, s')) :
    (saver.write nodes edges).run s =
      (.ok ({ nodesSaved := n.saved, edgesSaved := e.saved, nodeErrors :=
        n.failed, edgeErrors := e.failed }, { main := [greeting], nodes := n.messages, edges :=
  e.messages }), s') := by
  rw [write, StateT.run_bind, hnodes]
  -- the first tally and its state go on to the second writer
  change (bind (drain "edges" edgeInterval saver.edge edges {}) _).run s₁ = _
  rw [StateT.run_bind, hedges]
  rfl

/-- Without crashes the writers of nodes and edges both end, and their counts cover all that was
sent. -/
theorem write_accounts (hnode : ∀ n s, ((saver.node n).run s).1 ≠ .crashed)
    (hedge : ∀ e s, ((saver.edge e).run s).1 ≠ .crashed) (nodes : List GraphNode)
    (edges : List GraphEdge) (s : σ) :
    ∃ stats messages s', (saver.write nodes edges).run s = (.ok (stats, messages), s') ∧
      stats.nodesSaved + stats.nodeErrors = nodes.length ∧
      stats.edgesSaved + stats.edgeErrors = edges.length ∧ stats.cancelled = false := by
  obtain ⟨sentNodes, s₁, hnodes, rfl⟩ := exists_offers hnode nodes s
  obtain ⟨sentEdges, s', hedges, rfl⟩ := exists_offers hedge edges s₁
  refine ⟨_, _, s', write_run (hnodes.drain {}) (hedges.drain {}), ?_, ?_, rfl⟩
  · rw [List.length_map, ← List.length_map Prod.snd]
    exact (hnodes.accounts "nodes" nodeInterval).saved_add_failed hnodes.not_crashed
  · rw [List.length_map, ← List.length_map Prod.snd]
    exact (hedges.accounts "edges" edgeInterval).saved_add_failed hedges.not_crashed

/-- A store refuses an item or takes it, so what is written to it is always counted. -/
theorem write_store_accounts (nodes : List GraphNode) (edges : List GraphEdge) (s : Store) :
    ∃ stats messages s', (store.write nodes edges).run s = (.ok (stats, messages), s') ∧
      stats.nodesSaved + stats.nodeErrors = nodes.length ∧
      stats.edgesSaved + stats.edgeErrors = edges.length ∧ stats.cancelled = false :=
  write_accounts (fun n => attempt_ne_crashed (·.saveNode n))
    (fun e => attempt_ne_crashed (·.saveEdge e)) nodes edges s

end Saver

end CallAtlas
