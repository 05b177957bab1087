import ProcCatalog.Proofs.Assign.Longest
import ProcCatalog.Proofs.Counting
import ProcCatalog.Proofs.Value.Keys

/-!
# The code that most tables carry

Where neither the name nor a hint decides, each table that carries a code votes for it. The code
with the most votes is elected, and among several such codes the one that was voted for first. A
vote for the elected code, or one less for another, changes nothing. Codes are told apart as keys
are, so that a number is one code however it is written.
-/

namespace ProcCatalog.Assign

open Value (Key)

variable {rules : Rules} {hints : Hints} {name schema table : Text}
  {tables before after : List Text}
  {code m m' : Key}

/-! ## Votes -/

/-- The table has a code that can be counted, or none. -/
def CanVote (rules : Rules) (table : Text) : Prop :=
  ∃ code?, detectCode rules table [] = .ok code? ∧ ∀ v ∈ code?, v.isKey = true

def vote? (rules : Rules) (table : Text) : Option Key :=
  match detectCode rules table [] with
  | .ok (some v) => v.key?
  | _ => none

theorem vote?_of_detectCode {v : Value} (h : detectCode rules table [] = .ok (some v)) :
    vote? rules table = v.key? := by
  rw [vote?, h]

private theorem CanVote.cases (h : CanVote rules table) :
    detectCode rules table [] = .ok none ∧ vote? rules table = none ∨
      ∃ v k, detectCode rules table [] = .ok (some v) ∧ v.isKey = true ∧ v.key? = some k ∧
        vote? rules table = some k := by
  obtain ⟨code?, hcode, hkeys⟩ := h
  cases code? with
  | none => exact .inl ⟨hcode, by rw [vote?, hcode]⟩
  | some v =>
      have hkey := hkeys v rfl
      obtain ⟨k, hk⟩ := Option.isSome_iff_exists.mp (v.isSome_key?.trans hkey)
      exact .inr ⟨v, k, hcode, hkey, hk, (vote?_of_detectCode hcode).trans hk⟩

theorem CanVote.vote?_eq_none_iff (h : CanVote rules table) :
    vote? rules table = none ↔ detectCode rules table [] = .ok none := by
  rcases h.cases with ⟨hcode, hvote⟩ | ⟨v, k, hcode, -, -, hvote⟩
  · simp [hcode, hvote]
  · simp [hcode, hvote]

theorem canVote_of_key? {v : Value} (hcode : detectCode rules table [] = .ok (some v))
    (hv : v.key? = some m) : CanVote rules table := by
  refine ⟨_, hcode, ?_⟩
  rintro _ ⟨⟩
  rw [← v.isSome_key?, hv]
  rfl

/-- All codes that the rules can give are strings. -/
structure Rules.OfStrings (rules : Rules) : Prop extends rules.Applicable, rules.GivesStrings

theorem Rules.OfStrings.canVote (h : rules.OfStrings) (table : Text) : CanVote rules table := by
  obtain ⟨code?, hcode⟩ := exists_detectCode h.toApplicable table []
  refine ⟨code?, hcode, ?_⟩
  rintro v rfl
  obtain ⟨s, rfl⟩ := isString_of_detectCode h.toGivesStrings hcode
  rfl

/-- How many of the tables vote for a code. -/
def votesFor (rules : Rules) (tables : List Text) (code : Key) : Nat :=
  tables.countP fun table => decide (vote? rules table = some code)

/-- The place of the first of the tables that votes for a code. -/
def firstVote (rules : Rules) (tables : List Text) (code : Key) : Nat :=
  tables.findIdx fun table => decide (vote? rules table = some code)

/-- The code has the most votes, and of all that have as many it is voted for first. -/
structure Elected (rules : Rules) (tables : List Text) (m : Key) : Prop where
  voted : ∃ table ∈ tables, vote? rules table = some m
  most : ∀ code, votesFor rules tables code ≤ votesFor rules tables m
  first : ∀ code ≠ m, votesFor rules tables code = votesFor rules tables m →
    firstVote rules tables m < firstVote rules tables code

theorem Elected.unique (h : Elected rules tables m) (h' : Elected rules tables m') : m = m' := by
  by_contra hne
  have hvotes : votesFor rules tables m = votesFor rules tables m' :=
    Nat.le_antisymm (h'.most m) (h.most m')
  exact Nat.lt_asymm (h.first m' (Ne.symm hne) hvotes.symm) (h'.first m hne hvotes)

/-! ## One vote more or less -/

theorem votesFor_cons_between (before after : List Text) (table : Text) (code : Key) :
    votesFor rules (before ++ table :: after) code =
      votesFor rules (before ++ after) code + if vote? rules table = some code then 1 else 0 := by
  simp only [votesFor, List.countP_append, List.countP_cons, decide_eq_true_eq]
  omega

/-- A table between others that votes for neither of two codes does not change which comes first. -/
theorem firstVote_lt_iff {code code' : Key} (hcode : vote? rules table ≠ some code)
    (hcode' : vote? rules table ≠ some code') :
    firstVote rules (before ++ table :: after) code <
        firstVote rules (before ++ table :: after) code' ↔
      firstVote rules (before ++ after) code < firstVote rules (before ++ after) code' := by
  simp only [firstVote, List.findIdx_append, List.findIdx_cons, hcode, hcode', decide_false,
    cond_false]
  split <;> split <;> omega

theorem Elected.insert (h : Elected rules (before ++ after) m)
    (htable : vote? rules table = some m) : Elected rules (before ++ table :: after) m := by
  have hother (code : Key) (hne : code ≠ m) :
      votesFor rules (before ++ table :: after) code <
        votesFor rules (before ++ table :: after) m := by
    have hmost := h.most code
    have hno : vote? rules table ≠ some code := by
      rw [htable]
      exact fun heq => hne (Option.some.inj heq).symm
    rw [votesFor_cons_between, votesFor_cons_between, if_pos htable, if_neg hno]
    omega
  refine ⟨⟨table, by simp, htable⟩, fun code => ?_, fun code hne hvotes => ?_⟩
  · by_cases hne : code = m
    · rw [hne]
    · exact (hother code hne).le
  · exact absurd hvotes (hother code hne).ne

theorem Elected.erase (h : Elected rules (before ++ table :: after) m)
    (htable : vote? rules table ≠ some m) : Elected rules (before ++ after) m := by
  have hsame : votesFor rules (before ++ table :: after) m =
      votesFor rules (before ++ after) m := by
    rw [votesFor_cons_between, if_neg htable, Nat.add_zero]
  refine ⟨?_, fun code => ?_, fun code hne hvotes => ?_⟩
  · obtain ⟨t, ht, hvote⟩ := h.voted
    refine ⟨t, ?_, hvote⟩
    have hne : t ≠ table := fun heq => htable (heq ▸ hvote)
    simpa [hne] using ht
  · have hmost := h.most code
    rw [hsame, votesFor_cons_between] at hmost
    omega
  · have hmost := h.most code
    rw [hsame, votesFor_cons_between] at hmost
    by_cases hcode : vote? rules table = some code
    · rw [if_pos hcode] at hmost
      omega
    · refine (firstVote_lt_iff htable hcode).mp (h.first code hne ?_)
      rw [hsame, votesFor_cons_between, if_neg hcode, Nat.add_zero, hvotes]

/-! ## Counting -/

def ballots (rules : Rules) (tables : List Text) : List Key := tables.filterMap (vote? rules)

/-- The votes for codes are those for the keys that the codes are. -/
private def Keyed (votes : Votes) (counts : List (Key × Nat)) : Prop :=
  votes.map (fun e => (e.1.key?, e.2)) = counts.map fun e => (some e.1, e.2)

private theorem Keyed.cast {v : Value} {k : Key} (hv : v.key? = some k) {votes : Votes}
    {counts : List (Key × Nat)} (h : Keyed votes counts) :
    Keyed (castVote v votes) (countInto k counts) := by
  induction votes generalizing counts with
  | nil =>
      obtain rfl : counts = [] := List.map_eq_nil_iff.mp h.symm
      simp [Keyed, castVote, countInto, hv]
  | cons e votes ih =>
      obtain ⟨c, n⟩ := e
      cases counts with
      | nil => cases h
      | cons e' counts =>
          obtain ⟨k', n'⟩ := e'
          obtain ⟨hfirst, hrest⟩ := List.cons.inj h
          obtain ⟨hc, rfl⟩ := Prod.mk.inj hfirst
          have hsame : c.sameKey v = true ↔ k' = k := by
            rw [Value.sameKey_iff_key?_eq hc, hv, Option.some_inj, eq_comm]
          rw [castVote, countInto]
          by_cases hk : k' = k
          · rw [if_pos (hsame.mpr hk), if_pos hk]
            exact congrArg₂ List.cons (congrArg (·, n + 1) hc) hrest
          · rw [if_neg (mt hsame.mp hk), if_neg hk]
            exact congrArg₂ List.cons (congrArg (·, n) hc) (ih hrest)

private theorem exists_countVotes (h : ∀ t ∈ tables, CanVote rules t) {votes : Votes}
    {counts : List (Key × Nat)} (hkeyed : Keyed votes counts) :
    ∃ votes', countVotes rules tables votes = .ok votes' ∧
      Keyed votes' ((ballots rules tables).foldl (fun t code => countInto code t) counts) := by
  induction tables generalizing votes counts with
  | nil => exact ⟨votes, rfl, hkeyed⟩
  | cons table tables ih =>
      obtain ⟨htable, htables⟩ := List.forall_mem_cons.mp h
      rw [countVotes, ballots, List.filterMap_cons]
      rcases htable.cases with ⟨hcode, hvote⟩ | ⟨v, k, hcode, hkey, hv, hvote⟩
      · rw [hcode, hvote]
        exact ih htables hkeyed
      · obtain ⟨votes', hcount, hkeyed'⟩ := ih htables (hkeyed.cast hv)
        rw [hcode, hvote]
        refine ⟨votes', ?_, hkeyed'⟩
        rw [← hcount]
        change (if v.isKey = true then _ else _) = _
        rw [if_pos hkey]

private theorem code_of_mem_castVote {v : Value} {votes : Votes} {e : Value × Nat}
    (he : e ∈ castVote v votes) : e.1 = v ∨ ∃ e' ∈ votes, e'.1 = e.1 := by
  induction votes with
  | nil =>
      obtain rfl := List.mem_singleton.mp he
      exact .inl rfl
  | cons first votes ih =>
      obtain ⟨c, n⟩ := first
      rw [castVote] at he
      split at he
      · rcases List.mem_cons.mp he with rfl | he
        · exact .inr ⟨_, List.mem_cons_self, rfl⟩
        · exact .inr ⟨e, List.mem_cons_of_mem _ he, rfl⟩
      · rcases List.mem_cons.mp he with rfl | he
        · exact .inr ⟨_, List.mem_cons_self, rfl⟩
        · rcases ih he with hv | ⟨e', he', heq⟩
          · exact .inl hv
          · exact .inr ⟨e', List.mem_cons_of_mem _ he', heq⟩

/-- Votes are counted only if all tables can vote, and for codes that tables have. -/
private theorem of_countVotes_eq_ok {votes votes' : Votes}
    (h : countVotes rules tables votes = .ok votes') :
    (∀ t ∈ tables, CanVote rules t) ∧ ∀ e ∈ votes',
      (∃ t ∈ tables, detectCode rules t [] = .ok (some e.1)) ∨ ∃ e' ∈ votes, e'.1 = e.1 := by
  induction tables generalizing votes with
  | nil =>
      obtain rfl : votes = votes' := Except.ok.inj h
      exact ⟨List.forall_mem_nil _, fun e he => .inr ⟨e, he, rfl⟩⟩
  | cons table tables ih =>
      rw [countVotes] at h
      obtain ⟨code?, hcode, h⟩ := Outcome.bind_eq_ok.mp h
      cases code? with
      | none =>
          obtain ⟨hcan, hcodes⟩ := ih h
          refine ⟨List.forall_mem_cons.mpr ⟨⟨none, hcode, by simp⟩, hcan⟩, fun e he => ?_⟩
          rcases hcodes e he with ⟨t, ht, hdetect⟩ | hold
          · exact .inl ⟨t, List.mem_cons_of_mem _ ht, hdetect⟩
          · exact .inr hold
      | some v =>
          dsimp only at h
          split at h
          · rename_i hkey
            obtain ⟨hcan, hcodes⟩ := ih h
            refine ⟨List.forall_mem_cons.mpr ⟨⟨_, hcode, ?_⟩, hcan⟩, fun e he => ?_⟩
            · rintro _ ⟨⟩
              exact hkey
            · rcases hcodes e he with ⟨t, ht, hdetect⟩ | ⟨e', he', heq⟩
              · exact .inl ⟨t, List.mem_cons_of_mem _ ht, hdetect⟩
              · rcases code_of_mem_castVote he' with hv | ⟨e'', he'', heq'⟩
                · exact .inl ⟨table, List.mem_cons_self, by rw [hcode, ← heq, hv]⟩
                · exact .inr ⟨e'', he'', heq'.trans heq⟩
          · cases h

private theorem countVotes_skip (hnone : detectCode rules table [] = .ok none) (votes : Votes) :
    countVotes rules (before ++ table :: after) votes =
      countVotes rules (before ++ after) votes := by
  induction before generalizing votes with
  | nil =>
      change countVotes rules (table :: after) votes = countVotes rules after votes
      rw [countVotes, hnone]
      rfl
  | cons first before ih =>
      rw [List.cons_append, List.cons_append, countVotes, countVotes]
      refine congrArg _ (funext fun code? => ?_)
      cases code? with
      | none => exact ih votes
      | some v => exact if_congr Iff.rfl (ih _) rfl

/-- No code has more votes. -/
private def leads (votes : List Key) (code : Key) : Bool :=
  votes.all fun other => decide (votes.count other ≤ votes.count code)

private theorem Keyed.winner {votes : Votes} {counts : List (Key × Nat)} (h : Keyed votes counts) :
    (winner votes).map Value.key? =
      (counts.find? fun e => counts.all fun e' => decide (e'.2 ≤ e.2)).map fun e => some e.1 := by
  have hall (n : Nat) : votes.all (fun e => decide (e.2 ≤ n)) =
      counts.all fun e => decide (e.2 ≤ n) := by
    have hmapped :=
      congrArg (fun es : List (Option Key × Nat) => es.all fun e => decide (e.2 ≤ n)) h
    simpa only [List.all_map, Function.comp_def] using hmapped
  have hfind := congrArg (fun es : List (Option Key × Nat) =>
    es.find? fun e => counts.all fun e' => decide (e'.2 ≤ e.2)) h
  simp only [List.find?_map, Function.comp_def] at hfind
  rw [Assign.winner]
  simp only [hall]
  have hcodes := congrArg (Option.map Prod.fst) hfind
  rw [Option.map_map, Option.map_map] at hcodes
  rw [Option.map_map]
  exact hcodes

private theorem find?_numbered (votes : List Key) :
    ((numbered (distinct votes) fun code => votes.count code).find? fun e =>
      (numbered (distinct votes) fun code => votes.count code).all fun e' =>
        decide (e'.2 ≤ e.2)).map (fun e => some e.1) = (votes.find? (leads votes)).map some := by
  have hall (n : Nat) : (numbered (distinct votes) fun code => votes.count code).all
      (fun e => decide (e.2 ≤ n)) = votes.all fun other => decide (votes.count other ≤ n) := by
    rw [Bool.eq_iff_iff]
    simp [numbered]
  simp only [hall]
  rw [← find?_distinct (leads votes), numbered, List.find?_map, Option.map_map]
  rfl

private theorem exists_codeOfTables (h : ∀ t ∈ tables, CanVote rules t) :
    ∃ code?, codeOfTables rules tables = .ok code? ∧
      code?.map Value.key? =
        ((ballots rules tables).find? (leads (ballots rules tables))).map some ∧
      ∀ v ∈ code?, ∃ t ∈ tables, detectCode rules t [] = .ok (some v) := by
  have hempty : Keyed [] [] := rfl
  obtain ⟨votes, hcount, hkeyed⟩ := exists_countVotes h hempty
  rw [foldl_countInto_nil] at hkeyed
  refine ⟨winner votes, Outcome.map_eq_ok.mpr ⟨votes, hcount, rfl⟩,
    hkeyed.winner.trans (find?_numbered _), fun v hv => ?_⟩
  obtain ⟨e, he, rfl⟩ := Option.map_eq_some_iff.mp hv
  exact ((of_countVotes_eq_ok hcount).2 e (List.mem_of_find?_eq_some he)).resolve_right nofun

/-! ## Election -/

private theorem count_ballots (tables : List Text) (code : Key) :
    (ballots rules tables).count code = votesFor rules tables code := by
  rw [ballots, List.count, List.countP_filterMap, votesFor]
  refine List.countP_congr fun table _ => ?_
  cases vote? rules table <;> simp

private theorem exists_leads {votes : List Key} (hne : votes ≠ []) :
    ∃ code ∈ votes, leads votes code = true := by
  obtain ⟨code, hcode, hmost⟩ := votes.toFinset.exists_max_image (fun code => votes.count code)
    ((List.toFinset_nonempty_iff votes).mpr hne)
  refine ⟨code, List.mem_toFinset.mp hcode, ?_⟩
  simpa [leads] using hmost

/-- Where tables come first that do not vote for a code, it is first voted for behind them. -/
private theorem firstVote_append (hno : ∀ t ∈ before, vote? rules t ≠ some code) :
    firstVote rules (before ++ after) code = before.length + firstVote rules after code := by
  have hlength : before.findIdx (fun t => decide (vote? rules t = some code)) = before.length :=
    List.findIdx_eq_length.mpr fun t ht => by simpa using hno t ht
  rw [firstVote, List.findIdx_append, if_neg (by rw [hlength]; exact Nat.lt_irrefl _), firstVote,
    Nat.add_comm]

private theorem elected_of_find?
    (hfind : (ballots rules tables).find? (leads (ballots rules tables)) = some m) :
    Elected rules tables m := by
  have hleads : leads (ballots rules tables) m = true := List.find?_some hfind
  have hmost (code : Key) : votesFor rules tables code ≤ votesFor rules tables m := by
    rw [← count_ballots, ← count_ballots]
    by_cases hmem : code ∈ ballots rules tables
    · simpa using List.all_eq_true.mp hleads code hmem
    · rw [List.count_eq_zero.mpr hmem]
      exact Nat.zero_le _
  have hties (code : Key) (hvotes : votesFor rules tables code = votesFor rules tables m) :
      leads (ballots rules tables) code = true := by
    refine List.all_eq_true.mpr fun other _ => ?_
    simpa [count_ballots, hvotes] using hmost other
  rw [ballots, List.find?_filterMap] at hfind
  obtain ⟨table, htable, hvote⟩ := Option.bind_eq_some_iff.mp hfind
  obtain ⟨-, before, after, rfl, hbefore⟩ := List.find?_eq_some_iff_append.mp htable
  -- No table in front of the one that was found votes for a code that leads.
  have hno (code : Key) (hvotes : votesFor rules (before ++ table :: after) code =
      votesFor rules (before ++ table :: after) m) : ∀ t ∈ before, vote? rules t ≠ some code := by
    intro t ht hcode
    have hskipped := hbefore t ht
    rw [hcode] at hskipped
    simp only [Option.any_some, Bool.not_eq_true'] at hskipped
    exact Bool.eq_false_iff.mp hskipped (hties code hvotes)
  refine ⟨⟨table, by simp, hvote⟩, hmost, fun code hne hvotes => ?_⟩
  rw [firstVote_append (hno m rfl), firstVote_append (hno code hvotes), firstVote, firstVote,
    List.findIdx_cons, List.findIdx_cons, hvote]
  simp [Ne.symm hne]

private theorem codeOfTables_cases (h : ∀ t ∈ tables, CanVote rules t) :
    codeOfTables rules tables = .ok none ∧ (∀ t ∈ tables, vote? rules t = none) ∨
      ∃ v m, codeOfTables rules tables = .ok (some v) ∧ v.key? = some m ∧
        (∃ t ∈ tables, detectCode rules t [] = .ok (some v)) ∧ Elected rules tables m := by
  obtain ⟨code?, hresult, hkey, hcode⟩ := exists_codeOfTables h
  cases hfind : (ballots rules tables).find? (leads (ballots rules tables)) with
  | some m =>
      rw [hfind] at hkey
      obtain ⟨v, rfl, hv⟩ := Option.map_eq_some_iff.mp hkey
      exact .inr ⟨v, m, hresult, hv, hcode v rfl, elected_of_find? hfind⟩
  | none =>
      rw [hfind] at hkey
      obtain rfl := Option.map_eq_none_iff.mp hkey
      refine .inl ⟨hresult, List.filterMap_eq_nil_iff.mp (?_ : ballots rules tables = [])⟩
      by_contra hne
      obtain ⟨code, hcode, hleads⟩ := exists_leads hne
      exact List.find?_eq_none.mp hfind code hcode hleads

/-! ## Assignment -/

private theorem assign_eq_map (hname : detectCode rules name schema = .ok none)
    (hhint : codeOfHint rules hints name = .ok none) (tables : List Text) :
    assign rules hints name schema tables =
      (codeOfTables rules tables).map fun code? =>
        code?.elim ⟨.text uncategorized, .uncategorized⟩ fun code => ⟨code, .tableMajority⟩ := by
  rw [assign, hname]
  change (codeOfHint rules hints name >>= _) = _
  rw [hhint]
  cases codeOfTables rules tables with
  | error fault => rfl
  | ok code? => cases code? <;> rfl

private theorem exists_assign_iff (hname : detectCode rules name schema = .ok none)
    (hhint : codeOfHint rules hints name = .ok none) :
    (∃ a, assign rules hints name schema tables = .ok a) ↔ ∀ t ∈ tables, CanVote rules t := by
  rw [assign_eq_map hname hhint]
  constructor
  · rintro ⟨a, ha⟩
    obtain ⟨code?, hcode, -⟩ := Outcome.map_eq_ok.mp ha
    obtain ⟨votes, hvotes, -⟩ := Outcome.map_eq_ok.mp hcode
    exact (of_countVotes_eq_ok hvotes).1
  · intro h
    obtain ⟨code?, hcode, -⟩ := exists_codeOfTables h
    exact ⟨_, Outcome.map_eq_ok.mpr ⟨code?, hcode, rfl⟩⟩

structure DecidedByTables (rules : Rules) (tables : List Text) (a : Assignment) : Prop where
  uncategorized_iff : a.strategy = .uncategorized ↔ ∀ t ∈ tables, detectCode rules t [] = .ok none
  uncategorized : a.strategy = .uncategorized → a.code = .text uncategorized
  elected : a.strategy ≠ .uncategorized →
    a.strategy = .tableMajority ∧ (∃ t ∈ tables, detectCode rules t [] = .ok (some a.code)) ∧
      ∃ m, a.code.key? = some m ∧ Elected rules tables m

private theorem decidedByTables (hname : detectCode rules name schema = .ok none)
    (hhint : codeOfHint rules hints name = .ok none) {a : Assignment}
    (ha : assign rules hints name schema tables = .ok a) : DecidedByTables rules tables a := by
  have hcan := (exists_assign_iff hname hhint).mp ⟨a, ha⟩
  rw [assign_eq_map hname hhint] at ha
  rcases codeOfTables_cases hcan with ⟨hresult, hnone⟩ | ⟨v, m, hresult, hv, hcode, helected⟩
  · rw [hresult] at ha
    obtain rfl := Except.ok.inj ha
    refine ⟨⟨fun _ t ht => ((hcan t ht).vote?_eq_none_iff).mp (hnone t ht), fun _ => rfl⟩,
      fun _ => rfl, fun hne => absurd rfl hne⟩
  · rw [hresult] at ha
    obtain rfl := Except.ok.inj ha
    obtain ⟨t, ht, hvote⟩ := helected.voted
    refine ⟨⟨nofun, fun hnone => ?_⟩, nofun, fun _ => ⟨rfl, hcode, m, hv, helected⟩⟩
    simp [((hcan t ht).vote?_eq_none_iff).mpr (hnone t ht)] at hvote

/-- The module is chosen by the tables, and it is the one of a key. -/
def Elects (rules : Rules) (hints : Hints) (name schema : Text) (tables : List Text) (m : Key) :
    Prop :=
  ∃ code, code.key? = some m ∧
    assign rules hints name schema tables = .ok ⟨code, .tableMajority⟩

private theorem elects_iff (hname : detectCode rules name schema = .ok none)
    (hhint : codeOfHint rules hints name = .ok none) :
    Elects rules hints name schema tables m ↔
      (∀ t ∈ tables, CanVote rules t) ∧ Elected rules tables m := by
  constructor
  · rintro ⟨code, hcode, ha⟩
    refine ⟨(exists_assign_iff hname hhint).mp ⟨_, ha⟩, ?_⟩
    obtain ⟨-, -, m', hm', helected⟩ := (decidedByTables hname hhint ha).elected nofun
    obtain rfl := Option.some.inj (hcode.symm.trans hm')
    exact helected
  · rintro ⟨hcan, helected⟩
    rcases codeOfTables_cases hcan with ⟨-, hnone⟩ | ⟨v, m', hresult, hv, -, helected'⟩
    · obtain ⟨t, ht, hvote⟩ := helected.voted
      simp [hnone t ht] at hvote
    · refine ⟨v, hv.trans (congrArg some (helected'.unique helected)), ?_⟩
      rw [assign_eq_map hname hhint, hresult]
      rfl

/-- How the tables choose a module where neither the name nor a hint does. -/
structure ChoosesByTables (rules : Rules) (hints : Hints) (name schema : Text) : Prop where
  /-- A module is chosen unless the code of a table cannot be told or counted. -/
  exists_iff : ∀ tables, (∃ a, assign rules hints name schema tables = .ok a) ↔
    ∀ t ∈ tables, CanVote rules t
  canVote : rules.OfStrings → ∀ table, CanVote rules table
  decided : ∀ tables a, assign rules hints name schema tables = .ok a →
    DecidedByTables rules tables a
  /-- Tables without a code do not count. -/
  skip : ∀ before after table, detectCode rules table [] = .ok none →
    assign rules hints name schema (before ++ table :: after) =
      assign rules hints name schema (before ++ after)
  /-- A code stays elected with one more table of its own. -/
  insert : ∀ before after table v m, detectCode rules table [] = .ok (some v) →
    v.key? = some m → Elects rules hints name schema (before ++ after) m →
      Elects rules hints name schema (before ++ table :: after) m
  /-- A code stays elected without one of the tables of another. -/
  erase : ∀ before after table v m, detectCode rules table [] = .ok (some v) →
    v.key? ≠ some m → Elects rules hints name schema (before ++ table :: after) m →
      Elects rules hints name schema (before ++ after) m

/-- Where neither the name nor a hint decides, the tables elect the code that most of them carry,
and of several such codes the one that comes first; without a code on any table there is no
module. -/
theorem assign_elects (hname : detectCode rules name schema = .ok none)
    (hhint : codeOfHint rules hints name = .ok none) :
    ChoosesByTables rules hints name schema where
  exists_iff _ := exists_assign_iff hname hhint
  canVote h := h.canVote
  decided _ _ ha := decidedByTables hname hhint ha
  skip before after table hnone := by
    rw [assign_eq_map hname hhint, assign_eq_map hname hhint, codeOfTables, codeOfTables,
      countVotes_skip hnone]
  insert before after table v m hcode hv h := by
    rw [elects_iff hname hhint] at h ⊢
    obtain ⟨hcan, helected⟩ := h
    refine ⟨fun t ht => ?_, helected.insert ((vote?_of_detectCode hcode).trans hv)⟩
    rcases List.mem_append.mp ht with ht | ht
    · exact hcan t (List.mem_append_left _ ht)
    · rcases List.mem_cons.mp ht with rfl | ht
      · exact canVote_of_key? hcode hv
      · exact hcan t (List.mem_append_right _ ht)
  erase before after table v m hcode hv h := by
    rw [elects_iff hname hhint] at h ⊢
    obtain ⟨hcan, helected⟩ := h
    refine ⟨fun t ht => hcan t ?_, helected.erase ?_⟩
    · exact (List.Sublist.append_left (List.sublist_cons_self table after) before).mem ht
    · rwa [vote?_of_detectCode hcode]

/-- Two spellings of one code, and another code; no schema is a module. -/
def spelledTwice : Rules where
  codes := ["A", "a", "B"].map fun s => .text s.toList
  aliases := .ofTexts [("a", "A")]
  displayNames := []
  deletedMarker := .text []
  schemaModules := []

/-- Of two codes with two tables each the first is elected, and it stays elected with a table more
of its own and with one less of the other. -/
theorem assign_elects_of_spelledTwice :
    spelledTwice.OfStrings ∧ detectCode spelledTwice "Run".toList "dbo".toList = .ok none ∧
      codeOfHint spelledTwice [] "Run".toList = .ok none ∧
      ChoosesByTables spelledTwice [] "Run".toList "dbo".toList ∧
      Elects spelledTwice [] "Run".toList "dbo".toList
        (["Log", "B_1", "A_1", "a_2", "B_2"].map String.toList) (.str (Text.raw ['B'])) ∧
      Elects spelledTwice [] "Run".toList "dbo".toList
        (["Log", "B_1", "A_1", "a_2", "B_3", "B_2"].map String.toList) (.str (Text.raw ['B'])) ∧
      Elects spelledTwice [] "Run".toList "dbo".toList
        (["Log", "B_1", "a_2", "B_2"].map String.toList) (.str (Text.raw ['B'])) := by
  have hrules : spelledTwice.OfStrings :=
    ⟨⟨by decide, fun _ => ⟨_, rfl⟩⟩, ⟨by decide, by decide⟩⟩
  have hname : detectCode spelledTwice "Run".toList "dbo".toList = .ok none := by rfl
  have hhint : codeOfHint spelledTwice [] "Run".toList = .ok none := by rfl
  have hchooses := assign_elects hname hhint
  have helects : Elects spelledTwice [] "Run".toList "dbo".toList
      (["Log", "B_1", "A_1", "a_2", "B_2"].map String.toList) (.str (Text.raw ['B'])) :=
    ⟨.text ['B'], rfl, by rfl⟩
  refine ⟨hrules, hname, hhint, hchooses, helects, ?_, ?_⟩
  · exact hchooses.insert (["Log", "B_1", "A_1", "a_2"].map String.toList) ["B_2".toList]
      "B_3".toList (.text ['B']) _ rfl rfl helects
  · exact hchooses.erase (["Log", "B_1"].map String.toList) (["a_2", "B_2"].map String.toList)
      "A_1".toList (.text ['A']) _ rfl (by decide) helects

end ProcCatalog.Assign
