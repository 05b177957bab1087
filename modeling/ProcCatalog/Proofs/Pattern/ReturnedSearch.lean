import ProcCatalog.Proofs.Pattern.Matches
import ProcCatalog.Proofs.Pattern.Returns

/-!
# Searches in texts with carriage returns

A search in a text and one in the same text with carriage returns in front of line feeds find the
same, carriage returns aside. What they find ends at the same place. It also begins there, except
where a pattern begins with a line feed or a single blank: it may then begin behind a carriage
return.
-/

namespace ProcCatalog.Pattern

open Text Cursor

variable {cuts : String → Bool} {solid : Bool} {c c' d d' m : Cursor} {s s' : Text}
  {p q : Pattern} {B : Ahead}

/-- Nothing is known of what follows a search. -/
def Ahead.unknown : Ahead := ⟨false, false, false⟩

/-- What a pattern meets at a place of each text. -/
structure MetAlike (cuts : String → Bool) (c c' : Cursor) (f f' : Found) : Prop where
  start : f.start = c.offset
  start' : f'.start = c'.offset
  passed : Passed c c' f.stop f'.stop
  abreast : Abreast cuts f.stop f'.stop

private theorem matched (hp : Carries solid cuts p .unknown B)
    (hsolid : solid = true → c.rest.getLast? ≠ some '\n') :
    Follows cuts (fun d d' => Passed c c' d d' ∧ Abreast cuts d d') B c c'
      (fun d => p.run d some) fun d => p.run d some :=
  hp hsolid
    ⟨fun hpassed habreast => .some ⟨hpassed, habreast⟩, by simp [Ahead.unknown],
      by simp [Ahead.unknown], by simp [Ahead.unknown]⟩

private theorem rel_matchAt
    (h : Option.Rel (fun d d' => Passed c c' d d' ∧ Abreast cuts d d') (p.run c some)
      (p.run c' some)) :
    Option.Rel (MetAlike cuts c c') (p.matchAt c) (p.matchAt c') := by
  rw [matchAt, matchAt]
  generalize p.run c some = r at h
  generalize p.run c' some = r' at h
  cases h with
  | none => exact .none
  | some h => exact .some ⟨rfl, rfl, h.1, h.2⟩

theorem matchAt_abreast (hp : Carries solid cuts p .unknown B)
    (hsolid : solid = true → c.rest.getLast? ≠ some '\n') (h : Abreast cuts c c') :
    Option.Rel (MetAlike cuts c c') (p.matchAt c) (p.matchAt c') :=
  rel_matchAt ((matched hp hsolid).abreast (.refl _ _) h)

theorem matchAt_astride (hp : Carries solid cuts p .unknown B) (hB : B.between = true)
    (hsolid : solid = true → c.rest.getLast? ≠ some '\n') (h : Astride cuts c m) :
    Option.Rel (MetAlike cuts c m) (p.matchAt c) (p.matchAt m) :=
  rel_matchAt ((matched hp hsolid).between hB (.refl _ _) h)

theorem matchAt_shut (hp : Carries solid cuts p .unknown B) (hB : B.shut = true)
    (hsolid : solid = true → c.rest.getLast? ≠ some '\n') (h : Astride cuts c m) :
    p.matchAt c = none ∧ p.matchAt m = none := by
  have hnone : p.run c some = none ∧ p.run m some = none :=
    (matched hp hsolid).shut hB (.refl _ _) h
  rw [matchAt, matchAt, hnone.1, hnone.2]
  exact ⟨rfl, rfl⟩

theorem rel_lookup {marks marks' : List (String × Text)} (h : MarksAlike cuts marks marks')
    (name : String) :
    Option.Rel (fun t t' => if cuts name then ReturnedCut t t' else Returned t t')
      (marks.lookup name) (marks'.lookup name) := by
  induction h with
  | nil => exact .none
  | @cons m m' _ _ hm _ ih =>
      obtain ⟨key, t⟩ := m
      obtain ⟨key', t'⟩ := m'
      obtain ⟨rfl, ht⟩ := hm
      rw [List.lookup_cons, List.lookup_cons]
      cases hkey : name == key' with
      | true =>
          obtain rfl := beq_iff_eq.mp hkey
          exact .some ht
      | false => exact ih

theorem rel_mark? {f f' : Found} (h : MarksAlike cuts f.stop.marks f'.stop.marks) (name : String)
    (hname : cuts name = false) : Option.Rel Returned (f.mark? name) (f'.mark? name) := by
  have hlookup := rel_lookup h name
  simp only [hname, Bool.false_eq_true, if_false] at hlookup
  exact hlookup

theorem rel_mark?_cut {f f' : Found} (h : MarksAlike cuts f.stop.marks f'.stop.marks)
    (name : String) (hname : cuts name = true) :
    Option.Rel ReturnedCut (f.mark? name) (f'.mark? name) := by
  have hlookup := rel_lookup h name
  simp only [hname, if_true] at hlookup
  exact hlookup

/-- What a pattern marks on one line is the same in both texts. -/
theorem mark?_eq {f f' : Found} (h : MarksAlike cuts f.stop.marks f'.stop.marks) (name : String)
    (hname : cuts name = false) (hfeed : ∀ t, (name, t) ∈ f.stop.marks → '\n' ∉ t) :
    f'.mark? name = f.mark? name := by
  have hmark := rel_mark? h name hname
  generalize ht : f.mark? name = x at hmark
  generalize f'.mark? name = x' at hmark
  cases hmark with
  | none => rfl
  | @some t _ hr =>
      obtain ⟨marks, marks', hmarks, -⟩ := List.lookup_eq_some_iff.mp ht
      rw [hr.eq_of_not_feed (hfeed t (by simp [hmarks]))]

/-! ## The first place -/

structure FoundAlike (cuts : String → Bool) (s s' : Text) (f f' : Found) : Prop where
  start : ReturnedCut (s.take f.start) (s'.take f'.start)
  stop : Returned (s.take f.stop.offset) (s'.take f'.stop.offset)
  drop : s.drop f.stop.offset = f.stop.rest
  drop' : s'.drop f'.stop.offset = f'.stop.rest
  abreast : Abreast cuts f.stop f'.stop

/-- What is found begins at the same place, too. -/
structure FoundAbreast (cuts : String → Bool) (s s' : Text) (f f' : Found) : Prop extends
    FoundAlike cuts s s' f f' where
  start_abreast : Returned (s.take f.start) (s'.take f'.start)

private theorem take_of_after {v : Text} (h : (Cursor.start s).After v d) :
    s.take d.offset = v ∧ s.drop d.offset = d.rest := by
  have hs : s = v ++ d.rest := h.rest
  have hoffset : d.offset = v.length := by simpa [Cursor.start] using h.offset
  rw [hoffset, hs]
  exact ⟨List.take_left' rfl, List.drop_left' rfl⟩

private theorem returned_take (hs : Returned s s') (h : Abreast cuts d d')
    (hpassed : Passed (.start s) (.start s') d d') :
    Returned (s.take d.offset) (s'.take d'.offset) ∧ s.drop d.offset = d.rest ∧
      s'.drop d'.offset = d'.rest := by
  obtain ⟨v, after', after⟩ := hpassed
  obtain ⟨htake, hdrop⟩ := take_of_after after
  obtain ⟨htake', hdrop'⟩ := take_of_after after'
  rw [htake, htake']
  have hrest : s' = v ++ d'.rest := after'.rest
  exact ⟨h.returned (hrest ▸ hs) after', hdrop, hdrop'⟩

private theorem returnedCut_take (hs : Returned s s')
    (hpassed : Passed (.start s) (.start s') d d') :
    ReturnedCut (s.take d.offset) (s'.take d'.offset) := by
  obtain ⟨v, after', after⟩ := hpassed
  rw [(take_of_after after).1, (take_of_after after').1]
  have hrest : s' = v ++ d'.rest := after'.rest
  exact Returned.cut_of_append (hrest ▸ hs)

private theorem foundAlike {f f' : Found} (hs : Returned s s')
    (hstart : Passed (.start s) (.start s') c c') (hf : f.start = c.offset)
    (hf' : f'.start = c'.offset) (hstop : Passed (.start s) (.start s') f.stop f'.stop)
    (h : Abreast cuts f.stop f'.stop) : FoundAlike cuts s s' f f' := by
  obtain ⟨hreturned, hdrop, hdrop'⟩ := returned_take hs h hstop
  refine ⟨?_, hreturned, hdrop, hdrop', h⟩
  rw [hf, hf']
  exact returnedCut_take hs hstart

private theorem MetAlike.foundAbreast {f f' : Found} (hs : Returned s s')
    (hpassed : Passed (.start s) (.start s') c c') (hc : Abreast cuts c c')
    (h : MetAlike cuts c c' f f') : FoundAbreast cuts s s' f f' := by
  refine ⟨foundAlike hs hpassed h.start h.start' (hpassed.trans h.passed) h.abreast, ?_⟩
  rw [h.start, h.start']
  exact (returned_take hs hc hpassed).1

/-- At each place the pattern meets the same in both texts, or what it meets in front of a line
feed it meets only behind the carriage return. -/
structure Steps (cuts : String → Bool) (p : Pattern) (Q : Found → Found → Prop)
    (start start' : Cursor) : Prop where
  plain : ∀ {c c'}, Passed start start' c c' → Abreast cuts c c' →
    c'.rest.head? ≠ some '\r' → Option.Rel Q (p.matchAt c) (p.matchAt c')
  cut : ∀ {c c' t t'}, Passed start start' c c' → Abreast cuts c c' → c.rest = '\n' :: t →
    c'.rest = '\r' :: '\n' :: t' → Returned t t' →
      (Option.Rel Q (p.matchAt c) (p.matchAt c') ∧
        (p.matchAt c = none → p.matchAt (c'.step '\r' ('\n' :: t')) = none)) ∨
      (p.matchAt c' = none ∧
        Option.Rel Q (p.matchAt c) (p.matchAt (c'.step '\r' ('\n' :: t'))))

private theorem findFrom_cons (before : Option Char) (offset : Nat) (x : Char) (s : Text) :
    p.findFrom before offset (x :: s) =
      (p.matchAt ⟨before, x :: s, offset, []⟩ <|> p.findFrom (some x) (offset + 1) s) := by
  rw [findFrom]
  cases p.matchAt ⟨before, x :: s, offset, []⟩ <;> rfl

theorem rel_findFrom {Q : Found → Found → Prop} {start start' : Cursor}
    (h : Steps cuts p Q start start') (hs : Returned s s') {before before' : Option Char}
    {offset offset' : Nat}
    (hpassed : Passed start start' ⟨before, s, offset, []⟩ ⟨before', s', offset', []⟩)
    (habreast : Abreast cuts ⟨before, s, offset, []⟩ ⟨before', s', offset', []⟩) :
    Option.Rel Q (p.findFrom before offset s) (p.findFrom before' offset' s') := by
  induction hs generalizing before before' offset offset' with
  | nil => exact h.plain hpassed habreast (by simp)
  | feed ht ih =>
      -- the second search tries a place of its own, behind the carriage return
      have hcut := habreast.cut rfl ht
      have hmore := ih ((hpassed.trans (.cut rfl)).trans (.step (by decide) rfl rfl)) (hcut.step ht)
      rw [findFrom_cons, findFrom_cons, findFrom_cons]
      rcases h.cut hpassed habreast rfl rfl ht with ⟨hmatch, hvain⟩ | ⟨hnone, hmatch⟩
      · exact rel_orElse_in_vain hmatch hvain hmore
      · have hnone : p.matchAt ⟨before', _, offset', []⟩ = none := hnone
        have hrest := rel_orElse hmatch hmore
        rw [hnone]
        exact hrest
  | char hx ht ih =>
      rw [findFrom_cons, findFrom_cons]
      refine rel_orElse ?_ (ih (hpassed.trans (.step hx rfl rfl)) (habreast.step hx ht))
      exact h.plain hpassed habreast (by simpa using hx)

theorem rel_find?_of_steps {Q : Found → Found → Prop}
    (h : Steps cuts p Q (.start s) (.start s')) (hs : Returned s s') :
    Option.Rel Q (p.find? s) (p.find? s') :=
  rel_findFrom h hs (.refl _ _) (.of_returned hs 0 0)

private theorem solid_of_passed {start start' : Cursor}
    (hsolid : solid = true → start.rest.getLast? ≠ some '\n') (h : Passed start start' c c') :
    solid = true → c.rest.getLast? ≠ some '\n' :=
  fun hs => solid_later (hsolid hs) h

/-- A pattern that goes on alike in front of a line feed is met in front of its carriage
return. -/
theorem rel_find? (hp : Carries solid cuts p .unknown B) (hB : B.between = true)
    (hsolid : solid = true → s.getLast? ≠ some '\n') (hs : Returned s s') :
    Option.Rel (FoundAbreast cuts s s') (p.find? s) (p.find? s') := by
  refine rel_find?_of_steps (show Steps cuts p _ _ _ from ⟨?_, ?_⟩) hs
  · intro c c' hpassed habreast _
    have hmatch := matchAt_abreast hp (solid_of_passed hsolid hpassed) habreast
    exact rel_mono hmatch fun _ _ h => h.foundAbreast hs hpassed habreast
  · intro c c' t t' hpassed habreast hc hc' ht
    have hmatch := matchAt_abreast hp (solid_of_passed hsolid hpassed) habreast
    refine .inl ⟨rel_mono hmatch fun _ _ h => h.foundAbreast hs hpassed habreast,
      fun hnone => ?_⟩
    have hcut := matchAt_astride hp hB (solid_of_passed hsolid hpassed) (habreast.cut hc ht)
    rw [hnone] at hcut
    exact eq_none_of_rel hcut

private theorem matchAt_first {accepts : Char → Bool} {x : Char} {t : Text}
    (hc : c.rest = x :: t) :
    (Pattern.seq (.one accepts) q).matchAt c =
      if accepts x then (q.matchAt (c.step x t)).map fun f => ⟨c.offset, f.stop⟩ else none := by
  simp only [matchAt, run, hc]
  split
  · rw [Option.map_map]
    rfl
  · rfl

/-- A pattern that takes in a line feed and then meets no other is met behind the carriage
return. -/
theorem rel_find?_of_first {accepts : Char → Bool}
    (hq : Carries false cuts q .unknown B) (hB : B.shut = true) (hs : Returned s s') :
    Option.Rel (FoundAlike cuts s s') ((Pattern.seq (.one accepts) q).find? s)
      ((Pattern.seq (.one accepts) q).find? s') := by
  have hstep {c c' : Cursor} {x : Char} {t t' : Text} (hx : x ≠ '\r')
      (hpassed : Passed (.start s) (.start s') c c') (hc : c.rest = x :: t)
      (hc' : c'.rest = x :: t') (habreast : Abreast cuts (c.step x t) (c'.step x t')) :
      Option.Rel (FoundAlike cuts s s') ((Pattern.seq (.one accepts) q).matchAt c)
        ((Pattern.seq (.one accepts) q).matchAt c') := by
    rw [matchAt_first hc, matchAt_first hc']
    split
    · have hmatch := matchAt_abreast hq (by simp) habreast
      generalize q.matchAt (c.step x t) = r at hmatch
      generalize q.matchAt (c'.step x t') = r' at hmatch
      cases hmatch with
      | none => exact .none
      | some h =>
          have hstop := (hpassed.trans (.step hx hc hc')).trans h.passed
          exact .some (foundAlike hs hpassed rfl rfl hstop h.abreast)
    · exact .none
  refine rel_find?_of_steps (show Steps cuts _ _ _ _ from ⟨?_, ?_⟩) hs
  · intro c c' hpassed habreast hplain
    have hrest := habreast.rest
    generalize hc : c.rest = t at hrest
    generalize hc' : c'.rest = t' at hrest
    cases hrest with
    | nil => simp only [matchAt, run, hc, hc', Option.map_none, Option.Rel.none]
    | feed => simp [hc'] at hplain
    | char hx ht => exact hstep hx hpassed hc hc' (habreast.step hx ht)
  · intro c c' t t' hpassed habreast hc hc' ht
    have hcut := habreast.cut hc ht
    refine .inr ⟨?_, ?_⟩
    · rw [matchAt_first hc', (matchAt_shut hq hB (by simp) hcut).2]
      simp
    · exact hstep (by decide) (hpassed.trans (.cut hc')) hc rfl (hcut.step ht)

/-! ## Whether a pattern is met -/

private theorem rel_matchAt_true
    (h : Option.Rel (fun _ _ => True) (p.run c some) (p.run c' some)) :
    Option.Rel (fun _ _ => True) (p.matchAt c) (p.matchAt c') := by
  rw [matchAt, matchAt]
  generalize p.run c some = r at h
  generalize p.run c' some = r' at h
  cases h with
  | none => exact .none
  | some => exact .some trivial

private theorem met (hp : Carries solid cuts p ⟨true, true, false⟩ B)
    (hsolid : solid = true → c.rest.getLast? ≠ some '\n') :
    Follows cuts (fun _ _ => True) B c c' (fun d => p.run d some) fun d => p.run d some :=
  hp hsolid follows_some

theorem isSome_matchAt_eq (hp : Carries solid cuts p ⟨true, true, false⟩ B)
    (hsolid : solid = true → c.rest.getLast? ≠ some '\n') (h : Abreast cuts c c') :
    (p.matchAt c').isSome = (p.matchAt c).isSome :=
  isSome_eq_of_rel (rel_matchAt_true ((met hp hsolid).abreast (.refl _ _) h))

theorem occursIn_eq (hp : Carries false cuts p ⟨true, true, false⟩ B) (hB : B.between = true)
    (hs : Returned s s') : p.occursIn s' = p.occursIn s := by
  refine isSome_eq_of_rel (rel_find?_of_steps (show Steps cuts p (fun _ _ => True) _ _ from
    ⟨?_, ?_⟩) hs)
  · intro c c' _ habreast _
    exact rel_matchAt_true ((met hp (by simp)).abreast (.refl _ _) habreast)
  · intro c c' t t' _ habreast hc _ ht
    have hmet := rel_matchAt_true ((met hp (by simp)).abreast (.refl _ _) habreast)
    refine .inl ⟨hmet, fun hnone => ?_⟩
    have hcut := rel_matchAt_true ((met hp (by simp)).between hB (.refl _ _) (habreast.cut hc ht))
    rw [hnone] at hcut
    exact eq_none_of_rel hcut

/-! ## All places -/

/-- What is found in each text, with its marks. -/
structure TextAlike (cuts : String → Bool) (s s' : Text) (f f' : Found) : Prop where
  text : Returned (f.textIn s) (f'.textIn s')
  marks : MarksAlike cuts f.stop.marks f'.stop.marks

private theorem MetAlike.textAlike {f f' : Found} (hpassed : Passed (.start s) (.start s') c c')
    (hc : Returned c.rest c'.rest) (h : MetAlike cuts c c' f f') : TextAlike cuts s s' f f' := by
  refine ⟨?_, h.abreast.marks⟩
  obtain ⟨w, hw', hw⟩ := hpassed
  obtain ⟨v, hv', hv⟩ := h.passed
  rw [Found.textIn, Found.textIn, h.start, h.start', (take_of_after hw).2, (take_of_after hw').2]
  change Returned (c.upTo f.stop) (c'.upTo f'.stop)
  rw [upTo_past hv, upTo_past hv']
  rw [hv'.rest] at hc
  exact h.abreast.returned hc hv'

private theorem forall₂_allFrom (hp : Carries false cuts p .unknown B) (hB : B.shut = true)
    (hmoves : p.moves = true) {n : Nat} {t t' : Text}
    (ht : Returned t t') (hn : t'.length ≤ n) {before before' : Option Char}
    {offset offset' : Nat}
    (hpassed : Passed (.start s) (.start s') ⟨before, t, offset, []⟩ ⟨before', t', offset', []⟩)
    (habreast : Abreast cuts ⟨before, t, offset, []⟩ ⟨before', t', offset', []⟩) :
    List.Forall₂ (TextAlike cuts s s') (p.allFrom 0 before offset t)
      (p.allFrom 0 before' offset' t') := by
  -- the search goes on behind what it has met, so the induction is on a bound of its characters
  induction n generalizing t t' before before' offset offset' with
  | zero =>
      obtain rfl : t' = [] := List.length_eq_zero_iff.mp (by omega)
      obtain rfl := ht.eq_nil_iff.mpr rfl
      exact .nil
  | succ n ih =>
      cases ht with
      | nil => exact .nil
      | feed ht =>
          have hcut := habreast.cut rfl ht
          obtain ⟨hnone, hnoneCut⟩ := matchAt_shut hp hB (by simp) hcut
          have hnone' := eq_none_of_rel (hnone ▸ matchAt_abreast hp (by simp) habreast)
          rw [allFrom_of_none hnone, allFrom_of_none hnone', allFrom_of_none hnoneCut]
          simp only [List.length_cons] at hn
          exact ih ht (by omega) ((hpassed.trans (.cut rfl)).trans (.step (by decide) rfl rfl))
            (hcut.step ht)
      | @char x t t' hx ht =>
          have hmatch := matchAt_abreast hp (by simp) habreast
          generalize hf : p.matchAt ⟨before, x :: t, offset, []⟩ = r at hmatch
          generalize hf' : p.matchAt ⟨before', x :: t', offset', []⟩ = r' at hmatch
          cases hmatch with
          | none =>
              rw [allFrom_of_none hf, allFrom_of_none hf']
              simp only [List.length_cons] at hn
              exact ih ht (by omega) (hpassed.trans (.step hx rfl rfl)) (habreast.step hx ht)
          | @some f f' h =>
              obtain ⟨hall, -⟩ := allFrom_of_some hmoves hf
              obtain ⟨hall', hless⟩ := allFrom_of_some hmoves hf'
              rw [hall, hall']
              refine .cons (h.textAlike hpassed habreast.rest) ?_
              obtain ⟨v, after', after⟩ := hpassed.trans h.passed
              exact ih h.abreast.rest (by omega)
                ⟨v, ⟨after'.rest, after'.before, after'.offset⟩,
                  ⟨after.rest, after.before, after.offset⟩⟩
                ⟨h.abreast.rest, h.abreast.before, h.abreast.clear, .nil⟩

/-- A pattern that meets no line break at its beginning is met at the same places. -/
theorem forall₂_findAll (hp : Carries false cuts p .unknown B) (hB : B.shut = true)
    (hmoves : p.moves = true) (hs : Returned s s') :
    List.Forall₂ (TextAlike cuts s s') (p.findAll s) (p.findAll s') :=
  forall₂_allFrom hp hB hmoves hs le_rfl (.refl _ _) (.of_returned hs 0 0)

/-- What a pattern finds on one line each is the same in both texts. -/
theorem textsIn_eq (hp : Carries false cuts p .unknown B) (hB : B.shut = true)
    (hmoves : p.moves = true) (hfeed : ∀ before u rest, p.Spans before u rest → '\n' ∉ u)
    (hs : Returned s s') : p.textsIn s' = p.textsIn s := by
  have hfound := forall₂_findAll hp hB hmoves hs
  have hline : ∀ f ∈ p.findAll s, '\n' ∉ f.textIn s := fun f hf =>
    let ⟨_, hspan⟩ := exists_spans_of_mem_findAll hf
    hfeed _ _ _ hspan
  change (p.findAll s').map (Found.textIn s') = (p.findAll s).map (Found.textIn s)
  generalize p.findAll s = fs at hfound hline
  generalize p.findAll s' = fs' at hfound
  induction hfound with
  | nil => rfl
  | cons hf _ ih =>
      rw [List.map_cons, List.map_cons, hf.text.eq_of_not_feed (hline _ (by simp)),
        ih fun f hmem => hline f (by simp [hmem])]

end ProcCatalog.Pattern
