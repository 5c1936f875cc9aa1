import Sentential.Proofs.Headers
import Sentential.Proofs.Pairing
import Sentential.Proofs.Unmatched

/-!
# Which columns a table has

Parentheses that are shown give the formulas that they hold, in the order in which they open, and
the fold over the groups keeps the first of several that hold the same.
`TruthTable.columns_of_pairs`: between the variables and the whole formula stands each formula that
is shown once, so no column is lost and none comes twice.
-/

namespace Sentential

-- ---------------------------------------------------------------------------
-- What parentheses hold
-- ---------------------------------------------------------------------------

namespace Symbol

/-- The parentheses that open at index `j` hold a phrase of the formula. -/
def Encloses (symbols : List Symbol) (j : Nat) (f : Formula) : Prop :=
  ∃ (m : Nat) (p : Phrase), Partners symbols j m ∧
    p.Derives ((symbols.drop (j + 1)).take (m - (j + 1))) ∧ p.formula = f

/-- Other parentheses open before the index and close behind it. -/
def Nested (symbols : List Symbol) (j : Nat) : Prop :=
  ∃ i m, Partners symbols i m ∧ i < j ∧ j < m

/-- The parentheses that open at index `j` hold the formula and are not passed over by the mode. -/
def Shows (mode : GroupColumns) (symbols : List Symbol) (j : Nat) (f : Formula) : Prop :=
  Encloses symbols j f ∧ (mode = .outermost → ¬ Nested symbols j)

variable {symbols before inside behind : List Symbol} {j m : Nat} {f g : Formula}

theorem Partners.opening (h : Partners symbols j m) : symbols[j]? = some .opening := by
  obtain ⟨before, inside, behind, rfl, -, rfl, -⟩ := h
  simp

theorem Encloses.unique (hf : Encloses symbols j f) (hg : Encloses symbols j g) : f = g := by
  obtain ⟨m, p, partners, derives, rfl⟩ := hf
  obtain ⟨n, q, partners', derives', rfl⟩ := hg
  obtain rfl := partners.unique partners'
  rw [Phrase.unambiguous derives.1 derives'.1 (derives.2.trans derives'.2.symm)]

theorem Nested.balance_pos (balanced : Balanced (before ++ .opening :: behind))
    (h : Nested (before ++ .opening :: behind) before.length) : 0 < balance before := by
  obtain ⟨i, m, ⟨first, inside, last, split, between, rfl, rfl⟩, sooner, later⟩ := h
  rcases append_cons_eq_append_cons split with ⟨rfl, -, -⟩ | ⟨more, rfl, -⟩ | ⟨more, rfl, rest⟩
  · exact absurd sooner (Nat.lt_irrefl _)
  · simp only [List.length_append, List.length_cons] at sooner
    omega
  rcases append_cons_eq_append_cons rest with ⟨-, closing, -⟩ | ⟨others, rfl, -⟩ | ⟨others, rfl, -⟩
  · cases closing
  · simp only [List.length_append, List.length_cons] at later
    omega
  · have start := balanced.1 first ⟨_, split.symm⟩
    have within := between.1 more (List.prefix_append _ _)
    simp only [balance_append, balance]
    omega

theorem Partners.lt (stays : ¬ Overcloses inside)
    (h : Partners (before ++ .opening :: (inside ++ .opening :: behind)) before.length m) :
    before.length + 1 + inside.length < m := by
  obtain ⟨first, between, last, split, balanced, same, rfl⟩ := h
  obtain ⟨rfl, rest⟩ := List.append_inj split same
  rcases append_cons_eq_append_cons (List.cons.inj rest).2 with
    ⟨-, opening, -⟩ | ⟨others, rfl, -⟩ | ⟨others, rfl, -⟩
  · cases opening
  · simp only [List.length_append, List.length_cons]
    omega
  · exact absurd (overcloses_append_closing balanced others) stays

/-- A parenthesis opens inside of others just where some are open. -/
theorem nested_iff (balanced : Balanced (before ++ .opening :: behind)) :
    Nested (before ++ .opening :: behind) before.length ↔ 0 < balance before := by
  refine ⟨Nested.balance_pos balanced, fun positive => ?_⟩
  have bounded : ¬ Overcloses before := fun excess =>
    (balanced_iff.mp balanced).1 (excess.append _)
  obtain ⟨first, inside, rfl, -, stays⟩ := exists_unclosed bounded (Int.ne_of_gt positive)
  have here : (first ++ .opening :: inside ++ .opening :: behind)[first.length]? =
      some .opening := by simp
  obtain ⟨m, partners⟩ := exists_partners balanced here []
  rw [List.append_nil] at partners
  refine ⟨first.length, m, partners, by simp, ?_⟩
  rw [List.append_assoc, List.cons_append] at partners
  have later := partners.lt stays
  simp only [List.length_append, List.length_cons]
  omega

end Symbol

-- ---------------------------------------------------------------------------
-- Groups that are shown
-- ---------------------------------------------------------------------------

namespace Phrase

open Sentential.Symbol (Encloses Nested Shows)

variable {p : Phrase} {g : Group} {f : Formula} {j : Nat} {mode : GroupColumns}

theorem encloses_of_mem_groups (wf : p.WellFormed) (mem : g ∈ p.groups 0 0) :
    ∃ j, g.start = j + 1 ∧ Encloses p.symbols j g.formula ∧
      (Nested p.symbols j ↔ g.depth ≠ 0) := by
  obtain ⟨q, before, behind, within, formula, start, stop, depth⟩ := exists_within_of_mem_groups mem
  have contents : q.symbols = (p.symbols.drop (before.length + 1)).take
      (before.length + 1 + q.symbols.length - (before.length + 1)) := by
    simp [within.symbols_eq]
  refine ⟨before.length, by omega, ⟨_, q, within.partners, ⟨within.wellFormed wf, contents⟩,
    formula.symm⟩, ?_⟩
  have balanced := p.balanced_symbols
  rw [within.symbols_eq] at balanced ⊢
  rw [Symbol.nested_iff balanced]
  omega

theorem shows_iff_of_nested (nested : Nested p.symbols j ↔ g.depth ≠ 0) :
    mode.shows g = true ↔ (mode = .outermost → ¬ Nested p.symbols j) := by
  cases mode <;> simp [GroupColumns.shows, nested]

theorem exists_mem_groups_of_encloses (wf : p.WellFormed) (h : Encloses p.symbols j f) :
    ∃ g ∈ p.groups 0 0, g.start = j + 1 ∧ g.formula = f := by
  have opening : j ∈ p.symbols.idxsOf .opening := by
    obtain ⟨m, q, partners, -⟩ := h
    obtain ⟨inside, here⟩ := List.getElem?_eq_some_iff.mp partners.opening
    exact List.mem_idxsOf_iff_exists_getElem_pos.mpr ⟨inside, by simp [here]⟩
  have start : j + 1 ∈ (p.groups 0 0).map Group.start := by
    rw [map_start_groups]
    exact List.mem_map_of_mem opening
  obtain ⟨g, mem, start⟩ := List.mem_map.mp start
  obtain ⟨i, place, encloses, -⟩ := encloses_of_mem_groups wf mem
  obtain rfl : i = j := by omega
  exact ⟨g, mem, start, encloses.unique h⟩

theorem shows_of_mem_groups (wf : p.WellFormed) (mem : g ∈ (p.groups 0 0).filter mode.shows) :
    ∃ j, g.start = j + 1 ∧ Shows mode p.symbols j g.formula := by
  obtain ⟨mem, visible⟩ := List.mem_filter.mp mem
  obtain ⟨j, start, encloses, nested⟩ := encloses_of_mem_groups wf mem
  exact ⟨j, start, encloses, (shows_iff_of_nested nested).mp visible⟩

theorem exists_mem_groups_of_shows (wf : p.WellFormed) (h : Shows mode p.symbols j f) :
    ∃ g ∈ (p.groups 0 0).filter mode.shows, g.start = j + 1 ∧ g.formula = f := by
  obtain ⟨encloses, visible⟩ := h
  obtain ⟨g, mem, start, formula⟩ := exists_mem_groups_of_encloses wf encloses
  obtain ⟨i, place, -, nested⟩ := encloses_of_mem_groups wf mem
  obtain rfl : i = j := by omega
  exact ⟨g, List.mem_filter.mpr ⟨mem, (shows_iff_of_nested nested).mpr visible⟩, start, formula⟩

end Phrase

-- ---------------------------------------------------------------------------
-- Columns that are added
-- ---------------------------------------------------------------------------

namespace TruthTable

variable {root : Formula} {shown added : List Formula} {columns : List Column}
variable {groups : List Group} {g : Group}

/-- The formulas of the groups that have no column yet, each in its place by the first group that
has it. -/
structure Adds (root : Formula) (shown : List Formula) (groups : List Group)
    (added : List Formula) : Prop where
  nodup : added.Nodup
  mem_iff (f : Formula) : f ∈ added ↔
    f.isAtom = false ∧ f ≠ root ∧ f ∉ shown ∧ ∃ g ∈ groups, g.formula = f
  ordered : added.Pairwise fun f k => ∃ g ∈ groups, g.formula = f ∧
    ∀ g' ∈ groups, g'.formula = k → g.start < g'.start

theorem Adds.nil : Adds root shown [] [] where
  nodup := List.nodup_nil
  mem_iff f := by simp
  ordered := .nil

theorem Adds.ordered_concat (h : Adds root shown groups added)
    (last : ∀ g' ∈ groups, g'.start < g.start) :
    added.Pairwise fun f k => ∃ g' ∈ groups ++ [g], g'.formula = f ∧
      ∀ g'' ∈ groups ++ [g], g''.formula = k → g'.start < g''.start := by
  refine h.ordered.imp ?_
  rintro f k ⟨g', mem, formula, before⟩
  refine ⟨g', List.mem_append_left _ mem, formula, fun g'' mem' formula' => ?_⟩
  rcases List.mem_append.mp mem' with old | new
  · exact before g'' old formula'
  · exact List.mem_singleton.mp new ▸ last g' mem

theorem Adds.skip (h : Adds root shown groups added) (last : ∀ g' ∈ groups, g'.start < g.start)
    (known : g.formula.isAtom = true ∨ g.formula = root ∨ g.formula ∈ shown ++ added) :
    Adds root shown (groups ++ [g]) added where
  nodup := h.nodup
  mem_iff f := by
    rw [h.mem_iff]
    constructor
    · rintro ⟨compound, other, new, g', mem, formula⟩
      exact ⟨compound, other, new, g', List.mem_append_left _ mem, formula⟩
    · rintro ⟨compound, other, new, g', mem, rfl⟩
      rcases List.mem_append.mp mem with old | last
      · exact ⟨compound, other, new, g', old, rfl⟩
      obtain rfl := List.mem_singleton.mp last
      rcases known with atom | same | there
      · simp [atom] at compound
      · exact absurd same other
      · exact (h.mem_iff _).mp ((List.mem_append.mp there).resolve_left new)
  ordered := h.ordered_concat last

theorem Adds.add (h : Adds root shown groups added) (last : ∀ g' ∈ groups, g'.start < g.start)
    (compound : g.formula.isAtom = false) (other : g.formula ≠ root)
    (new : g.formula ∉ shown ++ added) :
    Adds root shown (groups ++ [g]) (added ++ [g.formula]) := by
  obtain ⟨unshown, unadded⟩ := not_or.mp (List.mem_append.not.mp new)
  have first : ∀ g' ∈ groups, g'.formula ≠ g.formula := fun g' mem same =>
    unadded ((h.mem_iff _).mpr ⟨compound, other, unshown, g', mem, same⟩)
  refine ⟨List.nodup_append.mpr ⟨h.nodup, by simp, ?_⟩, fun f => ?_, ?_⟩
  · rintro f mem k here rfl
    exact unadded (List.mem_singleton.mp here ▸ mem)
  · constructor
    · intro mem
      rcases List.mem_append.mp mem with old | here
      · obtain ⟨compound, other, new, g', mem, formula⟩ := (h.mem_iff f).mp old
        exact ⟨compound, other, new, g', List.mem_append_left _ mem, formula⟩
      · obtain rfl := List.mem_singleton.mp here
        exact ⟨compound, other, unshown, g, by simp, rfl⟩
    · rintro ⟨compound, other, new, g', mem, rfl⟩
      rcases List.mem_append.mp mem with old | here
      · exact List.mem_append_left _ ((h.mem_iff _).mpr ⟨compound, other, new, g', old, rfl⟩)
      · simp [List.mem_singleton.mp here]
  · refine List.pairwise_append.mpr ⟨h.ordered_concat last, List.pairwise_singleton _ _, ?_⟩
    intro f mem k here
    obtain ⟨-, -, -, g', old, formula⟩ := (h.mem_iff f).mp mem
    refine ⟨g', List.mem_append_left _ old, formula, fun g'' mem' formula' => ?_⟩
    rcases List.mem_append.mp mem' with sooner | here'
    · exact absurd (formula'.trans (List.mem_singleton.mp here)) (first g'' sooner)
    · exact List.mem_singleton.mp here' ▸ last g' old

theorem formulas_addGroup (root : Formula) (columns : List Column) (g : Group) :
    (addGroup root columns g).map Column.formula =
      if g.formula.isAtom = true ∨ g.formula = root ∨ g.formula ∈ columns.map Column.formula then
        columns.map Column.formula
      else columns.map Column.formula ++ [g.formula] := by
  have there : columns.any (·.formula == g.formula) = true ↔
      g.formula ∈ columns.map Column.formula := by
    simp [List.mem_map]
  simp only [addGroup, Bool.or_eq_true, beq_iff_eq, there, or_assoc]
  split <;> simp

/-- The fold over groups in the order of their beginnings adds just the formulas that it should. -/
theorem exists_adds (sorted : groups.Pairwise fun g k => g.start < k.start) :
    ∃ added, (groups.foldl (addGroup root) columns).map Column.formula =
        columns.map Column.formula ++ added ∧
      Adds root (columns.map Column.formula) groups added := by
  induction groups using List.reverseRecOn with
  | nil => exact ⟨[], by simp, .nil⟩
  | append_singleton groups g ih =>
    obtain ⟨sorted, -, last⟩ := List.pairwise_append.mp sorted
    have last : ∀ g' ∈ groups, g'.start < g.start := fun g' mem =>
      last g' mem g (List.mem_singleton_self g)
    obtain ⟨added, formulas, adds⟩ := ih sorted
    rw [List.foldl_append, List.foldl_cons, List.foldl_nil, formulas_addGroup, formulas]
    split
    next known => exact ⟨added, rfl, adds.skip last known⟩
    next unknown =>
      simp only [not_or] at unknown
      obtain ⟨compound, other, new⟩ := unknown
      refine ⟨added ++ [g.formula], by simp, adds.add last (by simpa using compound) other new⟩

-- ---------------------------------------------------------------------------
-- Tables
-- ---------------------------------------------------------------------------

open Sentential.Symbol (Shows)

theorem formulas_nameColumns (names : List Char) :
    (nameColumns names).map Column.formula = names.map Formula.var := by
  simp [nameColumns]

theorem isAtom_eq_false {f : Formula} :
    f.isAtom = false ↔ (∀ v, f ≠ .var v) ∧ ∀ b, f ≠ .const b := by
  cases f <;> simp [Formula.isAtom]

variable {p : Phrase} {mode : GroupColumns} {names : List Char} {f k : Formula}

namespace Adds

theorem nodup_formulas (h : Adds root (names.map Formula.var) groups added)
    (distinct : names.Nodup) (compound : ∀ v, root ≠ .var v) :
    (names.map Formula.var ++ added ++ [root]).Nodup := by
  have named : (names.map Formula.var).Nodup :=
    List.pairwise_map.mpr (distinct.imp fun apart same => apart (Formula.var.inj same))
  have parts : (names.map Formula.var ++ added).Nodup := by
    refine List.nodup_append.mpr ⟨named, h.nodup, fun f mem k mem' same => ?_⟩
    exact ((h.mem_iff k).mp mem').2.2.1 (same ▸ mem)
  refine List.nodup_append.mpr ⟨parts, by simp, fun f mem k last same => ?_⟩
  obtain rfl : f = root := same.trans (List.mem_singleton.mp last)
  rcases List.mem_append.mp mem with name | part
  · obtain ⟨v, -, var⟩ := List.mem_map.mp name
    exact compound v var.symm
  · exact ((h.mem_iff f).mp part).2.1 rfl

theorem mem_iff_shows (wf : p.WellFormed)
    (h : Adds root (names.map Formula.var) ((p.groups 0 0).filter mode.shows) added) :
    f ∈ added ↔ ((∀ v, f ≠ .var v) ∧ ∀ b, f ≠ .const b) ∧ f ≠ root ∧
      ∃ j, Shows mode p.symbols j f := by
  rw [h.mem_iff, isAtom_eq_false]
  constructor
  · rintro ⟨compound, other, -, g, mem, rfl⟩
    obtain ⟨j, -, shows⟩ := Phrase.shows_of_mem_groups wf mem
    exact ⟨compound, other, j, shows⟩
  · rintro ⟨compound, other, j, shows⟩
    obtain ⟨g, mem, -, formula⟩ := Phrase.exists_mem_groups_of_shows wf shows
    refine ⟨compound, other, fun name => ?_, g, mem, formula⟩
    obtain ⟨v, -, var⟩ := List.mem_map.mp name
    exact compound.1 v var.symm

theorem pairwise_shows (wf : p.WellFormed)
    (h : Adds root shown ((p.groups 0 0).filter mode.shows) added) :
    added.Pairwise fun f k => ∃ j, Shows mode p.symbols j f ∧
      ∀ i, Shows mode p.symbols i k → j < i := by
  refine h.ordered.imp ?_
  rintro f k ⟨g, mem, rfl, before⟩
  obtain ⟨j, start, shows⟩ := Phrase.shows_of_mem_groups wf mem
  refine ⟨j, shows, fun i shows' => ?_⟩
  obtain ⟨g', mem', start', formula'⟩ := Phrase.exists_mem_groups_of_shows wf shows'
  have := before g' mem' formula'
  omega

theorem eq_nil {v : Char} (parts : ∀ g ∈ groups, g.formula.Part root) (alone : root = .var v)
    (h : Adds root shown groups added) : added = [] := by
  refine List.eq_nil_iff_forall_not_mem.mpr fun f mem => ?_
  obtain ⟨-, other, -, g, group, rfl⟩ := (h.mem_iff f).mp mem
  have part := parts g group
  rw [alone] at part other
  exact other part.eq_var

end Adds

/-- Between the variables in their order and the whole formula a table has one column for each
formula that parentheses hold which the mode shows, unless it is an atom or the whole formula. These
columns come in the order in which the first such parentheses open. No two columns have one formula,
unless the whole formula is a variable, which then has two columns and no other one. -/
theorem columns_of_pairs {text : List Char} {params : TableParams} {table : TruthTable}
    (made : ofText text params = .ok table) :
    ∃ tokens root added, Token.ofText text = .ok tokens ∧ Formula.ofText text = .ok root ∧
      table.columns.map Column.formula = table.names.map Formula.var ++ added ++ [root] ∧
      (table.names.Pairwise (· < ·) ∧ ∀ v, v ∈ table.names ↔ v ∈ root.occurrences) ∧
      added.Nodup ∧
      (∀ f, f ∈ added ↔ ((∀ v, f ≠ .var v) ∧ ∀ b, f ≠ .const b) ∧ f ≠ root ∧
        ∃ j, Shows params.groups (tokens.map Token.symbol) j f) ∧
      (added.Pairwise fun f k => ∃ j, Shows params.groups (tokens.map Token.symbol) j f ∧
        ∀ i, Shows params.groups (tokens.map Token.symbol) i k → j < i) ∧
      ((∀ v, root ≠ .var v) → (table.columns.map Column.formula).Nodup) ∧
      ∀ v, root = .var v → table.columns.map Column.formula = [.var v, .var v] := by
  obtain ⟨parsed, read, -, rfl⟩ := ofText_eq_ok.mp made
  have formula : Formula.ofText text = .ok parsed.root := by
    rw [Formula.ofText, read]
    rfl
  obtain ⟨tokens, p, tokenized, ⟨wf, symbols⟩, -, rfl⟩ := Parsed.ofText_eq_ok.mp read
  obtain ⟨added, formulas, adds⟩ := @exists_adds p.formula (nameColumns p.formula.names) _
    (p.pairwise_start_groups.filter params.groups.shows)
  rw [formulas_nameColumns] at formulas adds
  have columns : (columnsOf params.groups ⟨p.formula, tokens, p.groups 0 0⟩).map Column.formula =
      p.formula.names.map Formula.var ++ added ++ [p.formula] := by
    rw [columnsOf, List.map_append, formulas]
    rfl
  refine ⟨tokens, p.formula, added, tokenized, formula, columns,
    ⟨p.formula.pairwise_names, fun v => Formula.mem_names⟩, adds.nodup, fun f => ?_, ?_, ?_, ?_⟩
  · exact symbols ▸ adds.mem_iff_shows wf
  · exact symbols ▸ adds.pairwise_shows wf
  · intro compound
    exact columns ▸ adds.nodup_formulas p.formula.nodup_names compound
  · intro v alone
    have parts : ∀ g ∈ (p.groups 0 0).filter params.groups.shows, g.formula.Part p.formula :=
      fun g mem => Parsed.part_of_mem_groups read (List.mem_filter.mp mem).1
    rw [tableOf, columns, adds.eq_nil parts alone, alone]
    rfl

/-- In the outermost mode the first parentheses around `B ∨ C` are passed over, so its column comes
behind that of `¬A`. -/
theorem columns_of_pairs_disjunction :
    let text := "(A&(B|C))->(~A)->(B|C)".toList
    let disjunction := Formula.binary .or (.var 'B') (.var 'C')
    ∃ tokens, Token.ofText text = .ok tokens ∧
      (∃ j, Shows .all (tokens.map Token.symbol) j disjunction ∧
        ∀ i, Shows .all (tokens.map Token.symbol) i (.not (.var 'A')) → j < i) ∧
      ∃ j, Shows .outermost (tokens.map Token.symbol) j (.not (.var 'A')) ∧
        ∀ i, Shows .outermost (tokens.map Token.symbol) i disjunction → j < i := by
  intro text disjunction
  let names := ['A', 'B', 'C']
  let conjunction := Formula.binary .and (.var 'A') disjunction
  let root := Formula.implies (.implies conjunction (.not (.var 'A'))) disjunction
  -- The second of three columns between the variables and the whole formula comes before the third.
  have ordered (params : TableParams) {f k : Formula}
      (computed : (ofText text params).toOption.map
          (fun table => (table.names, table.columns.map Column.formula)) =
        some (names, names.map Formula.var ++ [conjunction, f, k] ++ [root])) :
      ∃ tokens, Token.ofText text = .ok tokens ∧
        ∃ j, Shows params.groups (tokens.map Token.symbol) j f ∧
          ∀ i, Shows params.groups (tokens.map Token.symbol) i k → j < i := by
    cases made : ofText text params with
    | error e => simp [made, Except.toOption] at computed
    | ok table =>
      rw [made] at computed
      obtain ⟨hnames, hcolumns⟩ := Prod.mk.inj (Option.some.inj computed)
      obtain ⟨tokens, whole, added, tokenized, -, columns, -, -, -, order, -⟩ :=
        columns_of_pairs made
      rw [hcolumns, hnames] at columns
      obtain ⟨between, -⟩ := List.append_inj' columns rfl
      obtain rfl := List.append_cancel_left between
      obtain ⟨-, order⟩ := List.pairwise_cons.mp order
      obtain ⟨order, -⟩ := List.pairwise_cons.mp order
      exact ⟨tokens, tokenized, order k (List.mem_singleton_self k)⟩
  obtain ⟨tokens, tokenized, all⟩ := @ordered {} disjunction (.not (.var 'A')) (by decide +kernel)
  obtain ⟨again, tokenized', outermost⟩ :=
    @ordered ⟨.outermost, 12⟩ (.not (.var 'A')) disjunction (by decide +kernel)
  obtain rfl := Except.ok.inj (tokenized.symm.trans tokenized')
  exact ⟨tokens, tokenized, all, outermost⟩

end TruthTable

end Sentential
