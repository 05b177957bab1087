import ProcCatalog.Proofs.Signature.HeaderEnd
import ProcCatalog.Proofs.Signature.ReturnedParameters

/-!
# Headers of texts with carriage returns

Each of the five strategies finds the AS of a header at the same place, whether its lines end with
carriage returns or not. Only the end of the parameters may move behind a carriage return, where
the parameters do not end with a line feed any more.
-/

namespace ProcCatalog.Signature

open Pattern Text

variable {s s' : Text} {cuts : String → Bool} {f f' e e' : Found}

/-! ## Boundaries -/

/-- The same boundary in both texts. -/
structure Boundary.Alike (s s' : Text) (b b' : Boundary) : Prop where
  strategy : b'.strategy = b.strategy
  start : ReturnedCut (s.take b.start) (s'.take b'.start)
  stop : Returned (s.drop b.stop) (s'.drop b'.stop)

theorem boundaryOf_alike (strategy : Strategy) (h : FoundAlike cuts s s' f f') :
    Boundary.Alike s s' (boundaryOf strategy f) (boundaryOf strategy f') := by
  refine ⟨rfl, h.start, ?_⟩
  change Returned (s.drop f.stop.offset) (s'.drop f'.stop.offset)
  rw [h.drop, h.drop']
  exact h.abreast.rest

private theorem carries_lineEnd :
    Carries false (fun _ => false) (all [keyword "AS", spaces, lineBreak]) .unknown
      ⟨true, false, true⟩ := by
  have hbreak : Carries false (fun _ => false) (all [lineBreak]) .unknown ⟨true, false, false⟩ :=
    carries_lineBreak carries_empty
  have hword : (all [keyword "AS", spaces]).ahead false (fun _ => false) ⟨true, false, false⟩ =
      some ⟨true, false, true⟩ := by decide +kernel
  exact carries_append [keyword "AS", spaces] [lineBreak] hbreak hword

private theorem carries_asAtLineEnd :
    Carries false (fun _ => false) asAtLineEnd .unknown ⟨true, false, true⟩ :=
  carries_seq carries_wordEdge carries_lineEnd

private theorem carries_indentedLineEnd :
    Carries false (fun _ => false) (all [spaces, keyword "AS", spaces, lineBreak]) .unknown
      ⟨true, false, true⟩ :=
  carries_seq (carries_many_within rfl rfl) carries_lineEnd

private theorem carries_asAfterParen :
    Carries false (fun _ => false) asAfterParen .unknown ⟨true, false, true⟩ :=
  carries_of_ahead (by decide +kernel)

private theorem carries_asAtLineStart :
    Carries false (fun _ => false) asAtLineStart .unknown ⟨true, false, true⟩ :=
  carries_of_ahead (by decide +kernel)

private theorem carries_wordAs :
    Carries false (fun _ => false) (all [keyword "AS", .wordEdge]) .unknown ⟨true, false, true⟩ :=
  carries_of_ahead (by decide +kernel)

/-! ## A line with AS alone -/

private theorem getElem?_onOwnLine (h : asOnOwnLine.find? s = some f) :
    s[f.start]? = some '\n' := by
  obtain ⟨a, u, hat⟩ := find?_eq_some h
  obtain ⟨indent, v, rfl, -⟩ := spans_asOnOwnLine_iff.mp hat.spans
  rw [hat.text, hat.start]
  simp

private theorem getElem?_atLineEnd (h : asAtLineEnd.find? s = some f) :
    ∃ x, s[f.start]? = some x ∧ isWord x = true := by
  obtain ⟨a, u, hat⟩ := find?_eq_some h
  obtain ⟨-, word, gap, br, hend⟩ := spans_asAtLineEnd_iff.mp hat.spans
  obtain ⟨x, y, rfl, hx, -⟩ := exists_of_spells_as hend.spells
  refine ⟨x, ?_, hx⟩
  rw [hat.text, hat.start, hend.text]
  simp

private theorem start_ne_start (hf : asOnOwnLine.find? s = some f)
    (he : asAtLineEnd.find? (s.take f.stop.offset) = some e) : e.start ≠ f.start := by
  intro heq
  obtain ⟨x, hx, hword⟩ := getElem?_atLineEnd he
  rw [List.getElem?_take, heq, getElem?_onOwnLine hf] at hx
  split at hx
  · cases hx
    exact absurd hword (by decide)
  · simp at hx

private theorem le_of_returnedCut_take {i i' j j' : Nat} (hi : ReturnedCut (s.take i) (s'.take i'))
    (hj : ReturnedCut (s.take j) (s'.take j')) (hs : i ≤ s.length) (h : i' ≤ j') : i ≤ j := by
  have hprefix : s.take i <+: s.take j := by
    rw [← hi.withoutReturns, ← hj.withoutReturns]
    exact (List.take_prefix_take_left h).filter _
  have hlength := hprefix.length_le
  rw [List.length_take, List.length_take] at hlength
  omega

private theorem start_le_length (h : asAtLineEnd.find? s = some e) : e.start ≤ s.length := by
  obtain ⟨x, hx, -⟩ := getElem?_atLineEnd h
  exact (List.getElem?_eq_some_iff.mp hx).1.le

private theorem start_lt_start_iff (hf : asOnOwnLine.find? s = some f)
    (hf' : asOnOwnLine.find? s' = some f')
    (he : asAtLineEnd.find? (s.take f.stop.offset) = some e)
    (he' : asAtLineEnd.find? (s'.take f'.stop.offset) = some e')
    (hlone : ReturnedCut (s.take f.start) (s'.take f'.start))
    (hfirst : Returned ((s.take f.stop.offset).take e.start)
      ((s'.take f'.stop.offset).take e'.start)) :
    e'.start < f'.start ↔ e.start < f.start := by
  have hne := start_ne_start hf he
  have hne' := start_ne_start hf' he'
  obtain ⟨hstop, hs⟩ := le_min_iff.mp (List.length_take ▸ start_le_length he)
  obtain ⟨hstop', -⟩ := le_min_iff.mp (List.length_take ▸ start_le_length he')
  rw [List.take_take, List.take_take, min_eq_left hstop, min_eq_left hstop'] at hfirst
  -- the places differ in either text: a word begins at one, a line feed stands at the other
  constructor
  · intro hlt
    have := le_of_returnedCut_take (.inl hfirst) hlone hs hlt.le
    omega
  · intro hlt
    by_contra hge
    have hlength : f.start ≤ s.length :=
      (List.getElem?_eq_some_iff.mp (getElem?_onOwnLine hf)).1.le
    have := le_of_returnedCut_take hlone (.inl hfirst) hlength (by omega)
    omega

theorem rel_ownLine? (h : Returned s s') :
    Option.Rel (Boundary.Alike s s') (ownLine? s) (ownLine? s') := by
  have hfind : Option.Rel (FoundAlike (fun _ => false) s s') (asOnOwnLine.find? s)
      (asOnOwnLine.find? s') := rel_find?_of_first carries_indentedLineEnd rfl h
  rw [ownLine?, ownLine?]
  generalize hf : asOnOwnLine.find? s = x at hfind
  generalize hf' : asOnOwnLine.find? s' = x' at hfind
  cases hfind with
  | none => exact .none
  | @some f f' hfound =>
      have hearlier := rel_find? carries_asAtLineEnd rfl (by simp) hfound.stop
      simp only []
      generalize he : asAtLineEnd.find? (s.take f.stop.offset) = y at hearlier
      generalize he' : asAtLineEnd.find? (s'.take f'.stop.offset) = y' at hearlier
      cases hearlier with
      | none => exact .some (boundaryOf_alike .ownLine hfound)
      | @some e e' hearlier =>
          have hlt : e'.start < f'.start ↔ e.start < f.start :=
            start_lt_start_iff hf hf' he he' hfound.start hearlier.start_abreast
          simp only [hlt]
          split
          · exact .none
          · exact .some (boundaryOf_alike .ownLine hfound)

/-! ## AS behind a parenthesis -/

private theorem parenThenAs?_append {u t : Text} (hu : ∀ x ∈ u, isBlank x = true)
    (ht : ∀ x ∈ t.head?, isBlank x = false) :
    parenThenAs? (u ++ t) =
      if t.head? = some '(' then
        (Sql.closingFrom .code 0 u.length t).bind fun close =>
          (asAfterParen.matchAt ⟨none, (u ++ t).drop close, close, []⟩).map fun found =>
            ⟨.parenThenAs, close + 1, found.stop.offset⟩
      else none := by
  have hlength : (u ++ t).length - t.length = u.length := by simp
  rw [parenThenAs?]
  simp only [trimStart_append hu ht, hlength, Sql.closingParen?, List.drop_left' rfl]
  split
  · cases Sql.closingFrom .code 0 u.length t with
    | none => rfl
    | some close =>
        simp only [Option.bind_some]
        cases asAfterParen.matchAt ⟨none, (u ++ t).drop close, close, []⟩ <;> rfl
  · rfl

private theorem drop_of_after {c d : Cursor} {v : Text} (h : c.After v d)
    (hc : s.drop c.offset = c.rest) : s.drop d.offset = d.rest := by
  rw [h.offset, ← List.drop_drop, hc, h.rest, List.drop_left' rfl]

private theorem parenThenAs_alike {i i' : Nat} (hplaced : Sql.PlacedAlike s s' i i')
    (h : MetAlike (fun _ => false) ⟨none, s.drop i, i, []⟩ ⟨none, s'.drop i', i', []⟩ f f')
    (hf : asAfterParen.matchAt ⟨none, s.drop i, i, []⟩ = some f) :
    Boundary.Alike s s' ⟨.parenThenAs, i + 1, f.stop.offset⟩
      ⟨.parenThenAs, i' + 1, f'.stop.offset⟩ := by
  obtain ⟨-, u, after, paren, w, rfl, hparen, -⟩ := matchAt_eq_some hf
  obtain rfl := spans_char.mp hparen
  have hdrop : s.drop i = ')' :: (w ++ f.stop.rest) := after.rest
  obtain ⟨t', hdrop', -⟩ := (hdrop ▸ hplaced.back).exists_cons (by decide)
  refine ⟨rfl, .inl ?_, ?_⟩
  · change Returned (s.take (i + 1)) (s'.take (i' + 1))
    rw [List.take_add, List.take_add, hdrop, hdrop']
    exact hplaced.front.append (.char (by decide) .nil)
  · obtain ⟨v, after', after⟩ := h.passed
    change Returned (s.drop f.stop.offset) (s'.drop f'.stop.offset)
    rw [drop_of_after after rfl, drop_of_after after' rfl]
    exact h.abreast.rest

theorem rel_parenThenAs? (h : Returned s s') :
    Option.Rel (Boundary.Alike s s') (parenThenAs? s) (parenThenAs? s') := by
  obtain ⟨u, hs, hblank, hstart⟩ := exists_trimStart s
  generalize trimStart s = t at hs hstart
  subst hs
  obtain ⟨u', t', rfl, hu, ht⟩ := h.exists_append
  have hstart' : ∀ x ∈ t'.head?, isBlank x = false := by
    cases ht with
    | nil => simp
    | feed => exact absurd (hstart '\n' rfl) (by decide)
    | char => exact hstart
  rw [parenThenAs?_append hblank hstart, parenThenAs?_append (hu.isBlank hblank) hstart']
  simp only [ht.head?_eq_some_iff (show '(' ≠ '\n' by decide) (by decide)]
  split
  · refine rel_bind (Sql.rel_closingFrom ht hu .code 0) fun i i' hplaced => ?_
    have hmatch := matchAt_abreast carries_asAfterParen (by simp) (.of_returned hplaced.back i i')
    generalize hf : asAfterParen.matchAt ⟨none, (u ++ t).drop i, i, []⟩ = x at hmatch
    generalize asAfterParen.matchAt ⟨none, (u' ++ t').drop i', i', []⟩ = x' at hmatch
    cases hmatch with
    | none => exact .none
    | some hmet => exact .some (parenThenAs_alike hplaced hmet hf)
  · exact .none

/-! ## The strictest strategy that finds one -/

theorem rel_find?_strategy (h : Returned s s') (strategy : Strategy) :
    Option.Rel (Boundary.Alike s s') (strategy.find? s) (strategy.find? s') := by
  cases strategy with
  | ownLine => exact rel_ownLine? h
  | parenThenAs => exact rel_parenThenAs? h
  | endOfLine =>
      refine rel_map (rel_find? carries_asAtLineEnd rfl (by simp) h) fun f f' hfound => ?_
      exact boundaryOf_alike .endOfLine hfound.toFoundAlike
  | lineStart =>
      refine rel_map (rel_find? carries_asAtLineStart rfl (by simp) h) fun f f' hfound => ?_
      exact boundaryOf_alike .lineStart hfound.toFoundAlike
  | anywhere =>
      have hfind : Option.Rel (FoundAlike (fun _ => false) s s') (asAnywhere.find? s)
          (asAnywhere.find? s') := rel_find?_of_first carries_wordAs rfl h
      exact rel_map hfind fun f f' hfound => boundaryOf_alike .anywhere hfound

theorem rel_boundary? (h : Returned s s') :
    Option.Rel (Boundary.Alike s s') (boundary? s) (boundary? s') := by
  rw [boundary?, boundary?]
  induction strategies with
  | nil => exact .none
  | cons strategy more ih =>
      have hfirst := rel_find?_strategy h strategy
      rw [List.findSome?_cons, List.findSome?_cons]
      generalize strategy.find? s = x at hfirst
      generalize strategy.find? s' = x' at hfirst
      cases hfirst with
      | none => exact ih
      | some hfirst => exact .some hfirst

/-! ## Definitions -/

/-- The same definition, carriage returns in its defaults and its body aside. -/
structure Definition.Alike (d d' : Definition) : Prop where
  schema : d'.schema = d.schema
  name : d'.name = d.name
  parameters : List.Forall₂ Parameter.Alike d.parameters d'.parameters
  body : Returned d.body d'.body
  boundary : d'.boundary = d.boundary
  startLine : d'.startLine = d.startLine

private theorem forall₂_parseParameters_cut (h : ReturnedCut s s') :
    List.Forall₂ Parameter.Alike (parseParameters s) (parseParameters s') := by
  rcases h with h | ⟨t, rfl, ht⟩
  · exact forall₂_parseParameters h
  · rw [parseParameters_append_blanks t (by simp)]
    exact forall₂_parseParameters ht

private theorem carries_procedureName :
    Carries false (fun _ => false) procedureName .unknown ⟨true, false, true⟩ :=
  carries_of_ahead (by decide +kernel)

private theorem no_feed_of_marks_procedureName {key : String} {t : Text}
    (h : procedureName.Marks (key, t)) : '\n' ∉ t := by
  intro hmem
  exact absurd (isWord_of_marks_procedureName h '\n' hmem) (by decide +kernel)

theorem rel_parse? (h : Returned s s') (startLine : Int) :
    Option.Rel Definition.Alike (Definition.parse? s startLine)
      (Definition.parse? s' startLine) := by
  have hfind := rel_find? carries_procedureName rfl (by simp) h
  rw [Definition.parse?, Definition.parse?]
  generalize hf : procedureName.find? s = x at hfind
  generalize procedureName.find? s' = x' at hfind
  cases hfind with
  | none => exact .none
  | @some f f' hfound =>
      have hmarks := hfound.abreast.marks
      have hword (name : String) : f'.mark? name = f.mark? name :=
        mark?_eq hmarks name rfl fun t ht =>
          no_feed_of_marks_procedureName (marks_of_find? hf _ ht)
      have hrest := hfound.abreast.rest
      have hboundary := rel_boundary? hrest
      simp only [Option.map_some, hword]
      generalize boundary? f.stop.rest = b at hboundary
      generalize boundary? f'.stop.rest = b' at hboundary
      cases hboundary with
      | none => exact .some ⟨rfl, rfl, forall₂_parseParameters .nil, hrest, rfl, rfl⟩
      | some hboundary =>
          exact .some ⟨rfl, rfl, forall₂_parseParameters_cut hboundary.start, hboundary.stop,
            congrArg some hboundary.strategy, rfl⟩

end ProcCatalog.Signature
