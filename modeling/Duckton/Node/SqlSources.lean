/-
  Which queries stay on the grid because they read data (node/estimator.rs `has_data_source`,
  node/coordinator.rs `run_query_planned`).

  The code looks for markers in the lowered text. What they stand for is a query with `FROM` or
  `JOIN` as a keyword, which is said here of the text as SQL reads it: outside literals, quoted
  identifiers and comments. The main result says between which characters the keyword has to stand
  for every such query to be kept from the own engine: eleven layouts have a marker, and each other
  one has a text without any.

  Escape strings and dollar quotes are read as plain text, so more texts have a keyword here.
-/
import Duckton.Node.TargetedQuery

namespace Duckton.Node

/-! ## SQL text -/

/-- Where the reader of a text is. Block comments nest; `dash` and `slash` are code after a
    character that may begin a comment. -/
inductive SqlMode where
  | code
  | dash
  | slash
  | literal
  | quoted
  | lineComment
  | block (depth : Nat)
  | blockStar (depth : Nat)
  | blockSlash (depth : Nat)
  deriving DecidableEq, Repr

namespace SqlMode

def ofCode (c : Char) : SqlMode :=
  if c = '\'' then literal
  else if c = '"' then quoted
  else if c = '-' then dash
  else if c = '/' then slash
  else code

/-- A doubled quote leaves its literal and enters it again. -/
def next : SqlMode → Char → SqlMode
  | code, c => ofCode c
  | dash, c => if c = '-' then lineComment else ofCode c
  | slash, c => if c = '*' then block 0 else ofCode c
  | literal, c => if c = '\'' then code else literal
  | quoted, c => if c = '"' then code else quoted
  | lineComment, c => if c = '\n' ∨ c = '\r' then code else lineComment
  | block depth, c =>
    if c = '*' then blockStar depth else if c = '/' then blockSlash depth else block depth
  | blockStar depth, c =>
    if c = '/' then (if depth = 0 then code else block (depth - 1))
    else if c = '*' then blockStar depth
    else block depth
  | blockSlash depth, c =>
    if c = '*' then block (depth + 1)
    else if c = '/' then blockSlash depth
    else block depth

def isCode : SqlMode → Bool
  | code | dash | slash => true
  | _ => false

end SqlMode

/-- The mode after a text. -/
def sqlMode (text : List Char) : SqlMode :=
  text.foldl SqlMode.next .code

/-- The characters of an identifier; all of the upper half of the code table are. -/
def isIdentifierChar (c : Char) : Bool :=
  c.isAlphanum || c == '_' || c == '$' || decide (128 ≤ c.toNat)

def sourceWords : List (List Char) :=
  ["from".toList, "join".toList]

/-- A keyword with the characters next to it, `none` at an end of the text. -/
structure Layout where
  left : Option Char
  word : List Char
  right : Option Char
  isWord : word ∈ sourceWords
  starts : ∀ c ∈ left, isIdentifierChar c = false
  ends : ∀ c ∈ right, isIdentifierChar c = false

/-- The keyword stands in the text, in any case, between these characters. -/
def Layout.Occurs (y : Layout) (sql : String) : Prop :=
  ∃ before word after, sql.toList = before ++ word ++ after ∧ (sqlMode before).isCode = true ∧
    before.getLast? = y.left ∧ word.map Char.toLower = y.word ∧ after.head? = y.right

/-! ## Markers -/

/-- A character, a word and a character. -/
structure Flank where
  left : Char
  word : String
  right : Char
  deriving DecidableEq, Repr

def Flank.marker (f : Flank) : List Char :=
  f.left :: (f.word.toList ++ [f.right])

/-- The markers for the two keywords. -/
def flanks : List Flank :=
  [⟨' ', "from", ' '⟩, ⟨'\t', "from", ' '⟩, ⟨'\n', "from", ' '⟩, ⟨'(', "from", ' '⟩,
    ⟨')', "from", ' '⟩, ⟨'\r', "from", ' '⟩, ⟨'\n', "from", '\t'⟩, ⟨' ', "join", ' '⟩,
    ⟨'\n', "join", ' '⟩, ⟨'\t', "join", ' '⟩, ⟨'(', "join", ' '⟩]

/-- The markers for readers, files and statements that name their source otherwise. -/
def otherMarkers : List String :=
  ["read_", "scan_", "parquet_", "_scan(", "glob(", "query_table(", "copy ", "attach ", "delta_",
    "iceberg_", ".parquet", ".csv", ".json", ".ndjson", "://"]

variable {sql : String}

theorem containsIgnoringCase_iff {needle : String} :
    containsIgnoringCase sql needle = true ↔ needle.toList <:+: sql.toList.map Char.toLower :=
  decide_eq_true_iff

theorem hasDataSource_iff :
    hasDataSource sql = true ↔
      (∃ f ∈ flanks, f.marker <:+: sql.toList.map Char.toLower) ∨
        ∃ m ∈ otherMarkers, m.toList <:+: sql.toList.map Char.toLower := by
  have hmarkers : hasDataSource sql =
      ((flanks.map fun f => String.ofList f.marker).any (containsIgnoringCase sql) ||
        otherMarkers.any (containsIgnoringCase sql)) := by
    rw [← List.any_append]
    rfl
  simp only [hmarkers, Bool.or_eq_true, List.any_map, List.any_eq_true, Function.comp_apply,
    containsIgnoringCase_iff, String.toList_ofList]

theorem flanks_spec : ∀ f ∈ flanks,
    (f.left.toLower = f.left ∧ f.right.toLower = f.right) ∧
      f.marker.filter isIdentifierChar = f.word.toList ∧
      f.marker.filter (!isIdentifierChar ·) = [f.left, f.right] ∧
      f.word.toList ∈ sourceWords ∧ f.left ≠ '\'' ∧ f.left ≠ '"' := by
  decide

/-- The keyword stands between the characters of one of its markers. -/
def Layout.Marked (y : Layout) : Prop :=
  ∃ f ∈ flanks, y.left = some f.left ∧ y.word = f.word.toList ∧ y.right = some f.right

theorem Layout.Marked.hasDataSource {y : Layout} (hmarked : y.Marked) (h : y.Occurs sql) :
    hasDataSource sql = true := by
  obtain ⟨f, hf, hleft, hword, hright⟩ := hmarked
  obtain ⟨before, word, after, htext, -, hlast, hlower, hhead⟩ := h
  obtain ⟨skipped, rfl⟩ := List.getLast?_eq_some_iff.mp (hlast.trans hleft)
  obtain ⟨rest, rfl⟩ := List.head?_eq_some_iff.mp (hhead.trans hright)
  obtain ⟨⟨hl, hr⟩, -⟩ := flanks_spec f hf
  refine hasDataSource_iff.mpr (.inl ⟨f, hf, skipped.map Char.toLower, rest.map Char.toLower, ?_⟩)
  rw [htext, Flank.marker, ← hword, ← hlower]
  simp [hl, hr]

/-! ## A text for each layout -/

namespace Layout

variable (y : Layout)

/-- The least code that ends in a character; a quote closes what it opens. -/
def leadIn (c : Char) : List Char :=
  if c = '\'' ∨ c = '"' then [c, c] else [c]

def lead : List Char :=
  y.left.elim [] leadIn

/-- The keyword with its neighbours and nothing else. -/
def sample : List Char :=
  y.lead ++ y.word ++ y.right.toList

theorem isCode_ofCode {c : Char} (hliteral : c ≠ '\'') (hquoted : c ≠ '"') :
    (SqlMode.ofCode c).isCode = true := by
  unfold SqlMode.ofCode
  rw [if_neg hliteral, if_neg hquoted]
  split_ifs <;> rfl

theorem isCode_leadIn (c : Char) : (sqlMode (leadIn c)).isCode = true := by
  unfold leadIn
  split
  · rename_i hquote
    rcases hquote with rfl | rfl <;> rfl
  · rename_i hplain
    obtain ⟨hliteral, hquoted⟩ := not_or.mp hplain
    exact isCode_ofCode hliteral hquoted

theorem sourceWords_spec : ∀ word ∈ sourceWords, word.length = 4 ∧
    word.map Char.toLower = word ∧ word.filter isIdentifierChar = word ∧
      word.filter (!isIdentifierChar ·) = [] := by
  decide

theorem occurs_sample : y.Occurs (String.ofList y.sample) := by
  refine ⟨y.lead, y.word, y.right.toList, String.toList_ofList, ?_, ?_,
    (sourceWords_spec _ y.isWord).2.1, ?_⟩
  · unfold lead
    cases y.left with
    | none => rfl
    | some c => exact isCode_leadIn c
  · unfold lead
    cases y.left with
    | none => rfl
    | some c =>
      show (leadIn c).getLast? = some c
      unfold leadIn
      split <;> rfl
  · cases y.right <;> rfl

theorem not_identifier_of_mem_lead {c : Char} (h : c ∈ y.lead) : isIdentifierChar c = false := by
  unfold lead at h
  cases hleft : y.left with
  | none => simp [hleft] at h
  | some l =>
    obtain rfl : c = l := by
      simp only [hleft, Option.elim_some, leadIn] at h
      split at h <;> simpa using h
    exact y.starts c hleft

theorem not_identifier_of_mem_right {c : Char} (h : c ∈ y.right.toList) :
    isIdentifierChar c = false :=
  y.ends c (Option.mem_toList.mp h)

theorem toLower_eq_self {c : Char} (h : isIdentifierChar c = false) : c.toLower = c := by
  unfold Char.toLower
  refine dif_neg fun hupper => ?_
  have hcapital : c.isUpper = true := decide_eq_true hupper
  change (c.isUpper || c.isLower || c.isDigit || _ || _ || _) = false at h
  simp [hcapital] at h

theorem map_toLower_sample : y.sample.map Char.toLower = y.sample := by
  have hplain {cs : List Char} (h : ∀ c ∈ cs, isIdentifierChar c = false) :
      cs.map Char.toLower = cs :=
    (List.map_congr_left fun c hc => toLower_eq_self (h c hc)).trans (List.map_id cs)
  unfold sample
  rw [List.map_append, List.map_append, hplain fun _ => y.not_identifier_of_mem_lead,
    hplain fun _ => y.not_identifier_of_mem_right, (sourceWords_spec _ y.isWord).2.1]

theorem filter_identifier_sample : y.sample.filter isIdentifierChar = y.word := by
  have hplain {cs : List Char} (h : ∀ c ∈ cs, isIdentifierChar c = false) :
      cs.filter isIdentifierChar = [] :=
    List.filter_eq_nil_iff.mpr fun c hc => by simp [h c hc]
  unfold sample
  rw [List.filter_append, List.filter_append, hplain fun _ => y.not_identifier_of_mem_lead,
    hplain fun _ => y.not_identifier_of_mem_right, (sourceWords_spec _ y.isWord).2.2.1,
    List.nil_append, List.append_nil]

theorem filter_other_sample :
    y.sample.filter (!isIdentifierChar ·) = y.lead ++ y.right.toList := by
  have hplain {cs : List Char} (h : ∀ c ∈ cs, isIdentifierChar c = false) :
      cs.filter (!isIdentifierChar ·) = cs :=
    List.filter_eq_self.mpr fun c hc => by simp [h c hc]
  unfold sample
  rw [List.filter_append, List.filter_append, hplain fun _ => y.not_identifier_of_mem_lead,
    hplain fun _ => y.not_identifier_of_mem_right, (sourceWords_spec _ y.isWord).2.2.2,
    List.append_nil]

variable {y}

/-- Two characters in the order of the sample, the first no quote, are the neighbours. -/
theorem neighbours_of_sublist {a b : Char} (h : [a, b].Sublist (y.lead ++ y.right.toList))
    (hliteral : a ≠ '\'') (hquoted : a ≠ '"') : y.left = some a ∧ y.right = some b := by
  have hlone : ¬ [a, b].Sublist y.right.toList := by
    intro hsub
    have hlength := hsub.length_le
    cases hright : y.right <;> simp [hright] at hlength
  unfold lead at h
  cases hleft : y.left with
  | none =>
    rw [hleft] at h
    exact absurd h hlone
  | some l =>
    rw [hleft] at h
    by_cases hl : a = l
    · subst hl
      have hlead : leadIn a = [a] := if_neg (not_or.mpr ⟨hliteral, hquoted⟩)
      rw [Option.elim_some, hlead, List.singleton_append, List.cons_sublist_cons,
        List.singleton_sublist, Option.mem_toList] at h
      exact ⟨rfl, h⟩
    · -- neither character of the lead is the first one
      refine absurd ?_ hlone
      simp only [Option.elim_some, leadIn] at h
      split at h <;> simpa [List.cons_sublist_cons', hl] using h

theorem otherMarkers_spec : ∀ m ∈ otherMarkers, m ≠ "://" → ∀ word ∈ sourceWords,
    ¬ (m.toList.filter isIdentifierChar).Sublist word := by
  decide

/-- A marker in the sample is that of its layout. -/
theorem marked_of_hasDataSource (h : hasDataSource (String.ofList y.sample) = true) :
    y.Marked := by
  rw [hasDataSource_iff, String.toList_ofList, map_toLower_sample] at h
  rcases h with ⟨f, hf, hmarker⟩ | ⟨m, hm, hmarker⟩
  · have hidents := hmarker.sublist.filter isIdentifierChar
    have hothers := hmarker.sublist.filter (!isIdentifierChar ·)
    obtain ⟨-, hword, hpair, hsource, hliteral, hquoted⟩ := flanks_spec f hf
    rw [hword, filter_identifier_sample] at hidents
    rw [hpair, filter_other_sample] at hothers
    obtain ⟨hleft, hright⟩ := neighbours_of_sublist hothers hliteral hquoted
    have hlength : f.word.toList.length = y.word.length :=
      (sourceWords_spec _ hsource).1.trans (sourceWords_spec _ y.isWord).1.symm
    exact ⟨f, hf, hleft, (hidents.eq_of_length hlength).symm, hright⟩
  · exfalso
    by_cases hscheme : m = "://"
    · -- a colon and a slash cannot both be the left neighbour
      subst hscheme
      have hothers := hmarker.sublist.filter (!isIdentifierChar ·)
      rw [filter_other_sample] at hothers
      have hcolon := neighbours_of_sublist (a := ':') (b := '/')
        ((by decide : [':', '/'].Sublist _).trans hothers) (by decide) (by decide)
      have hslash := neighbours_of_sublist (a := '/') (b := '/')
        ((by decide : ['/', '/'].Sublist _).trans hothers) (by decide) (by decide)
      exact absurd (hcolon.1.symm.trans hslash.1) (by decide)
    · have hidents := hmarker.sublist.filter isIdentifierChar
      rw [filter_identifier_sample] at hidents
      exact otherMarkers_spec m hm hscheme _ y.isWord hidents

end Layout

/-! ## Routing -/

/-- In `auto` a query without an estimate is not local. -/
theorem not_isLocal_of_auto {planner : PlannerConfig} {req : PlanRequest}
    (hprefer : req.prefer = .auto) (hestimate : req.estimate = none) :
    (planner.decide req).isLocal = false := by
  unfold PlannerConfig.decide
  rw [hprefer, hestimate]
  split_ifs <;> rfl

theorem not_executesLocally_of_source (h : hasDataSource sql = true)
    (r : Requester) {cfg : CallConfig} (hprefer : cfg.planner.prefer = .auto)
    (estimate : Option WorkingSetEstimate) :
    r.executesLocally cfg (localEstimate sql estimate) = false := by
  unfold Requester.executesLocally
  cases r.executor with
  | none => rfl
  | some x =>
    cases r.planner with
    | none => rfl
    | some planner =>
      dsimp only
      rw [not_isLocal_of_auto hprefer (if_pos h), Bool.false_and]

/-- The query is taken for one with a data source, and with the preference `auto` no run of it, with
    whatever estimate, uses the own engine: it goes to the grid. -/
structure KeptOnGrid (sql : String) : Prop where
  source : hasDataSource sql = true
  remote : ∀ (r : Requester) (cfg : CallConfig) (estimate : Option WorkingSetEstimate)
    (rounds : List Round), cfg.planner.prefer = .auto →
      r.executesLocally cfg (localEstimate sql estimate) = false ∧
        (r.runQueryPlanned (.ok cfg) sql estimate rounds).grid.isSome = true

theorem keptOnGrid_iff : KeptOnGrid sql ↔ hasDataSource sql = true := by
  refine ⟨KeptOnGrid.source, fun h => ⟨h, fun r cfg estimate rounds hprefer => ?_⟩⟩
  have hexec := not_executesLocally_of_source h r hprefer estimate
  refine ⟨hexec, ?_⟩
  rcases run_cases r cfg sql (localEstimate sql estimate) _ _ rounds with ⟨hgrid, -⟩ | ⟨-, habs, -⟩
  · rw [Requester.runQueryPlanned, hgrid]
    rfl
  · rw [hexec] at habs
    cases habs

/-- Every query with the keyword `FROM` or `JOIN` between two given neighbours is kept on the grid
    if and only if a marker has these neighbours. -/
theorem source_kept_on_grid_iff (y : Layout) :
    (∀ sql, y.Occurs sql → KeptOnGrid sql) ↔ y.Marked :=
  ⟨fun h => Layout.marked_of_hasDataSource (h _ y.occurs_sample).source,
    fun hmarked _ h => keptOnGrid_iff.mpr (hmarked.hasDataSource h)⟩

/-! ### The table on the next line -/

/-- An idle node whose own engine has no table `t`. -/
def tablelessNode : Requester where
  localNodeId := ⟨"b3:self"⟩
  executor := some (smallExecutor 0)
  planner := some (plannerOn .auto)
  execute _ _ := .error (.exec "Catalog Error: Table with name t does not exist!")

/-- A line of its own. -/
def ownLine : Layout where
  left := some '\n'
  word := "from".toList
  right := some '\n'
  isWord := List.mem_cons_self
  starts := by rintro c ⟨⟩; rfl
  ends := by rintro c ⟨⟩; rfl

set_option maxRecDepth 2000 in
/-- With the table on the next line the keyword is not seen: the query is executed locally although
    a worker is there, and fails. -/
theorem broken_line_query_fails :
    ownLine.Occurs "SELECT *\nFROM\n  t" ∧
      ¬ KeptOnGrid "SELECT *\nFROM\n  t" ∧
      let run := tablelessNode.runQueryPlanned
        (.ok { pinnedCall with planner := plannerOn .auto }) "SELECT *\nFROM\n  t"
        (preflightEstimate (fun _ => none) "SELECT *\nFROM\n  t") [oneWorkerRound]
      run.grid.isNone = true ∧
        run.answer = some (.error (.localExecution
          "execution failed: Catalog Error: Table with name t does not exist!")) := by
  refine ⟨⟨"SELECT *\n".toList, "FROM".toList, "\n  t".toList, rfl, rfl, rfl, rfl, rfl⟩,
    fun h => ?_, by decide, by decide⟩
  have hsource := h.source
  revert hsource
  decide

end Duckton.Node
