import ProcCatalog.Catalog.Basic
import ProcCatalog.Proofs.Outcome
import ProcCatalog.Proofs.Text.Order
import ProcCatalog.Proofs.Value.Keys
import Mathlib

/-!
# Procedures by module

The modules of a catalog that was built have different keys, and each lists procedures of its own
key.
-/

namespace ProcCatalog

/-! ## Buckets -/

namespace Catalog

/-- No two buckets have the same key, and the procedures in a bucket have that of its module. -/
structure Grouped (buckets : Buckets) : Prop where
  distinct : (buckets.map (·.1)).Pairwise fun v w => v.sameKey w = false
  sameKey : ∀ b ∈ buckets, ∀ p ∈ b.2, b.1.sameKey p.moduleCode = true

/-- A code is added at the end unless it is there. -/
private theorem codes_putBucket (p : Procedure) (buckets : Buckets) :
    (putBucket p buckets).map (·.1) = buckets.map (·.1) ∨
      (∀ v ∈ buckets.map (·.1), v.sameKey p.moduleCode = false) ∧
        (putBucket p buckets).map (·.1) = buckets.map (·.1) ++ [p.moduleCode] := by
  induction buckets with
  | nil => exact .inr ⟨by simp, rfl⟩
  | cons bucket buckets ih =>
      obtain ⟨code, ps⟩ := bucket
      rw [putBucket]
      split
      · exact .inl rfl
      · rename_i hcode
        have hcode : code.sameKey p.moduleCode = false := by simpa using hcode
        rcases ih with hsame | ⟨hnew, hadded⟩
        · exact .inl (congrArg (code :: ·) hsame)
        · exact .inr ⟨List.forall_mem_cons.mpr ⟨hcode, hnew⟩, congrArg (code :: ·) hadded⟩

private theorem sameKey_putBucket {buckets : Buckets} {p : Procedure}
    (h : ∀ b ∈ buckets, ∀ q ∈ b.2, b.1.sameKey q.moduleCode = true)
    (hp : p.moduleCode.isKey = true) :
    ∀ b ∈ putBucket p buckets, ∀ q ∈ b.2, b.1.sameKey q.moduleCode = true := by
  induction buckets with
  | nil =>
      intro b hb q hq
      obtain rfl : b = (p.moduleCode, [p]) := by simpa [putBucket] using hb
      obtain rfl : q = p := by simpa using hq
      exact Value.sameKey_self hp
  | cons bucket buckets ih =>
      obtain ⟨code, ps⟩ := bucket
      obtain ⟨hfirst, hrest⟩ := List.forall_mem_cons.mp h
      rw [putBucket]
      split
      · rename_i hcode
        refine List.forall_mem_cons.mpr ⟨fun q hq => ?_, hrest⟩
        rcases List.mem_append.mp hq with hq | hq
        · exact hfirst q hq
        · rwa [List.mem_singleton.mp hq]
      · exact List.forall_mem_cons.mpr ⟨hfirst, ih hrest⟩

private theorem Grouped.put {buckets : Buckets} (h : Grouped buckets) {p : Procedure}
    (hp : p.moduleCode.isKey = true) : Grouped (putBucket p buckets) := by
  refine ⟨?_, sameKey_putBucket h.sameKey hp⟩
  rcases codes_putBucket p buckets with hsame | ⟨hnew, hadded⟩
  · rw [hsame]
    exact h.distinct
  · rw [hadded]
    refine List.pairwise_append.mpr ⟨h.distinct, List.pairwise_singleton _ _, fun v hv w hw => ?_⟩
    rw [List.mem_singleton.mp hw]
    exact hnew v hv

private theorem grouped_foldl {ps : List Procedure} (h : ∀ p ∈ ps, p.moduleCode.isKey = true)
    {buckets : Buckets} (hb : Grouped buckets) :
    Grouped (ps.foldl (fun buckets p => putBucket p buckets) buckets) := by
  induction ps generalizing buckets with
  | nil => exact hb
  | cons p ps ih =>
      obtain ⟨hp, hps⟩ := List.forall_mem_cons.mp h
      exact ih hps (hb.put hp)

/-- There are buckets exactly if every code is a key. -/
theorem bucketsOf_eq_ok {ps : List Procedure} {buckets : Buckets} :
    bucketsOf ps = .ok buckets ↔
      (∀ p ∈ ps, p.moduleCode.isKey = true) ∧
        ps.foldl (fun buckets p => putBucket p buckets) [] = buckets := by
  rw [bucketsOf]
  split
  · rename_i hkeys
    rw [and_iff_right (List.all_eq_true.mp hkeys), Except.ok.injEq]
  · rename_i hkeys
    rw [List.all_eq_true] at hkeys
    simp [hkeys]

theorem grouped_bucketsOf {ps : List Procedure} {buckets : Buckets}
    (h : bucketsOf ps = .ok buckets) : Grouped buckets := by
  obtain ⟨hkeys, rfl⟩ := bucketsOf_eq_ok.mp h
  exact grouped_foldl hkeys ⟨.nil, fun b hb => nomatch hb⟩

theorem Grouped.sameKey_of_mem_bucketOf {buckets : Buckets} (h : Grouped buckets) {code : Value}
    {p : Procedure} (hp : p ∈ bucketOf buckets code) : code.sameKey p.moduleCode = true := by
  rw [bucketOf] at hp
  cases hfind : buckets.find? fun b => b.1.sameKey code with
  | none => simp [hfind] at hp
  | some bucket =>
      have hcode : bucket.1.sameKey code = true := by simpa using List.find?_some hfind
      have hp : p ∈ bucket.2 := by simpa [hfind] using hp
      exact Value.sameKey_trans (Value.sameKey_symm hcode)
        (h.sameKey bucket (List.mem_of_find?_eq_some hfind) p hp)

private theorem bucketOf_cons (code v : Value) (ps : List Procedure) (buckets : Buckets) :
    bucketOf ((code, ps) :: buckets) v = if code.sameKey v then ps else bucketOf buckets v := by
  rw [bucketOf, List.find?_cons]
  cases code.sameKey v <;> simp [bucketOf]

/-- A procedure comes last in the bucket of its key, and the other buckets stay as they are. -/
private theorem bucketOf_putBucket (p : Procedure) (buckets : Buckets) (v : Value) :
    bucketOf (putBucket p buckets) v =
      bucketOf buckets v ++ if v.sameKey p.moduleCode then [p] else [] := by
  induction buckets with
  | nil => rw [putBucket, bucketOf_cons, Value.sameKey_comm]; rfl
  | cons bucket buckets ih =>
      obtain ⟨code, ps⟩ := bucket
      rw [putBucket]
      by_cases hput : code.sameKey p.moduleCode = true
      · rw [if_pos hput, bucketOf_cons, bucketOf_cons]
        by_cases hcode : code.sameKey v = true
        · rw [if_pos hcode, if_pos hcode,
            if_pos (Value.sameKey_trans (Value.sameKey_symm hcode) hput)]
        · have hv : ¬v.sameKey p.moduleCode = true := fun hv =>
            hcode (Value.sameKey_trans hput (Value.sameKey_symm hv))
          rw [if_neg hcode, if_neg hcode, if_neg hv, List.append_nil]
      · rw [if_neg hput, bucketOf_cons, bucketOf_cons, ih]
        by_cases hcode : code.sameKey v = true
        · have hv : ¬v.sameKey p.moduleCode = true := fun hv =>
            hput (Value.sameKey_trans hcode hv)
          rw [if_pos hcode, if_pos hcode, if_neg hv, List.append_nil]
        · rw [if_neg hcode, if_neg hcode]

private theorem bucketOf_foldl (ps : List Procedure) (buckets : Buckets) (v : Value) :
    bucketOf (ps.foldl (fun buckets p => putBucket p buckets) buckets) v =
      bucketOf buckets v ++ ps.filter fun p => v.sameKey p.moduleCode := by
  induction ps generalizing buckets with
  | nil => simp
  | cons p ps ih =>
      rw [List.foldl_cons, ih, bucketOf_putBucket, List.filter_cons, List.append_assoc]
      split <;> rfl

/-- A bucket holds the procedures of its key, in the order in which they came. -/
theorem bucketOf_bucketsOf {ps : List Procedure} {buckets : Buckets}
    (h : bucketsOf ps = .ok buckets) (v : Value) :
    bucketOf buckets v = ps.filter fun p => v.sameKey p.moduleCode := by
  obtain ⟨-, rfl⟩ := bucketsOf_eq_ok.mp h
  exact bucketOf_foldl ps [] v

private theorem mem_codes_foldl {ps : List Procedure} {buckets : Buckets} {v : Value}
    (h : v ∈ (ps.foldl (fun buckets p => putBucket p buckets) buckets).map (·.1)) :
    v ∈ buckets.map (·.1) ∨ ∃ p ∈ ps, p.moduleCode = v := by
  induction ps generalizing buckets with
  | nil => exact .inl h
  | cons p ps ih =>
      obtain hv | ⟨q, hq, hcode⟩ := ih h
      · rcases codes_putBucket p buckets with hsame | ⟨-, hadded⟩
        · exact .inl (hsame ▸ hv)
        · rw [hadded, List.mem_append, List.mem_singleton] at hv
          exact hv.imp_right fun hv => ⟨p, List.mem_cons_self, hv.symm⟩
      · exact .inr ⟨q, List.mem_cons_of_mem _ hq, hcode⟩

theorem exists_of_mem_codes {ps : List Procedure} {buckets : Buckets}
    (h : bucketsOf ps = .ok buckets) {v : Value} (hv : v ∈ buckets.map (·.1)) :
    ∃ p ∈ ps, p.moduleCode = v := by
  obtain ⟨-, rfl⟩ := bucketsOf_eq_ok.mp h
  exact (mem_codes_foldl hv).resolve_left (by simp)

theorem exists_code_of_mem {ps : List Procedure} {buckets : Buckets}
    (h : bucketsOf ps = .ok buckets) {p : Procedure} (hp : p ∈ ps) :
    ∃ v ∈ buckets.map (·.1), v.sameKey p.moduleCode = true := by
  have hmem : p ∈ bucketOf buckets p.moduleCode := by
    rw [bucketOf_bucketsOf h]
    exact List.mem_filter.mpr ⟨hp, Value.sameKey_self ((bucketsOf_eq_ok.mp h).1 p hp)⟩
  rw [bucketOf] at hmem
  cases hfind : buckets.find? fun b => b.1.sameKey p.moduleCode with
  | none => simp [hfind] at hmem
  | some bucket =>
      have hcode : bucket.1.sameKey p.moduleCode = true := by simpa using List.find?_some hfind
      exact ⟨bucket.1, List.mem_map_of_mem (List.mem_of_find?_eq_some hfind), hcode⟩

/-! ## Listings -/

/-- No two modules of a catalog are the same key, and each lists procedures of its own key. -/
structure Partitioned (listings : List Listing) : Prop where
  distinct : (listings.map (·.code)).Pairwise fun v w => v.sameKey w = false
  sameKey : ∀ l ∈ listings, ∀ p ∈ l.procedures, l.code.sameKey p.moduleCode = true

private theorem listingOf_eq_ok {rules : Assign.Rules} {buckets : Buckets} {code : Value}
    {l : Listing} (h : listingOf rules buckets code = .ok l) :
    l.code = code ∧ l.procedures = sortBy Procedure.listedBefore (bucketOf buckets code) := by
  rw [listingOf] at h
  obtain ⟨displayName, -, h⟩ := Outcome.bind_eq_ok.mp h
  obtain rfl := Except.ok.inj h
  exact ⟨rfl, rfl⟩

theorem perm_of_sorted {vs ws : List Value} (h : Value.sorted vs = .ok ws) :
    ws.Perm vs := by
  rw [Value.sorted] at h
  split at h
  · exact Except.ok.inj h ▸ sortBy_perm Value.keyLe vs
  · cases h

theorem procedures_of_mem_listingsOf {rules : Assign.Rules} {ps : List Procedure}
    {listings : List Listing} (h : listingsOf rules ps = .ok listings) {l : Listing}
    (hl : l ∈ listings) :
    l.procedures =
      sortBy Procedure.listedBefore (ps.filter fun p => l.code.sameKey p.moduleCode) := by
  obtain ⟨buckets, hbuckets, h⟩ := Outcome.bind_eq_ok.mp h
  obtain ⟨codes, -, h⟩ := Outcome.bind_eq_ok.mp h
  obtain ⟨code, -, hl⟩ := Outcome.exists_of_mem_mapM h hl
  obtain ⟨hcode, hprocedures⟩ := listingOf_eq_ok hl
  rw [hprocedures, bucketOf_bucketsOf hbuckets, hcode]

theorem exists_of_mem_listingsOf {rules : Assign.Rules} {ps : List Procedure}
    {listings : List Listing} (h : listingsOf rules ps = .ok listings) {l : Listing}
    (hl : l ∈ listings) : ∃ p ∈ ps, p.moduleCode = l.code := by
  obtain ⟨buckets, hbuckets, h⟩ := Outcome.bind_eq_ok.mp h
  obtain ⟨codes, hcodes, h⟩ := Outcome.bind_eq_ok.mp h
  obtain ⟨code, hcode, hl⟩ := Outcome.exists_of_mem_mapM h hl
  rw [(listingOf_eq_ok hl).1]
  exact exists_of_mem_codes hbuckets ((perm_of_sorted hcodes).mem_iff.mp hcode)

theorem partitioned_listingsOf {rules : Assign.Rules} {ps : List Procedure}
    {listings : List Listing} (h : listingsOf rules ps = .ok listings) : Partitioned listings := by
  rw [listingsOf] at h
  obtain ⟨buckets, hbuckets, h⟩ := Outcome.bind_eq_ok.mp h
  obtain ⟨codes, hcodes, h⟩ := Outcome.bind_eq_ok.mp h
  have hgrouped := grouped_bucketsOf hbuckets
  refine ⟨?_, fun l hl p hp => ?_⟩
  · have hsymm {v w : Value} (hvw : v.sameKey w = false) : w.sameKey v = false :=
      Bool.eq_false_iff.mpr fun hwv => Bool.eq_false_iff.mp hvw (Value.sameKey_symm hwv)
    rw [Outcome.map_eq_of_mapM (fun _ _ hl => (listingOf_eq_ok hl).1) h]
    exact hgrouped.distinct.perm (perm_of_sorted hcodes).symm hsymm
  · obtain ⟨code, -, hl⟩ := Outcome.exists_of_mem_mapM h hl
    obtain ⟨hcode, hprocedures⟩ := listingOf_eq_ok hl
    rw [hprocedures, mem_sortBy] at hp
    rw [hcode]
    exact hgrouped.sameKey_of_mem_bucketOf hp

theorem partitioned_build {setting : Setting} {analysis : Analysis} {c : Catalog}
    (h : build setting analysis = .ok c) : Partitioned c.listings := by
  rw [build] at h
  obtain ⟨ps, -, h⟩ := Outcome.bind_eq_ok.mp h
  obtain ⟨listings, hlistings, h⟩ := Outcome.bind_eq_ok.mp h
  obtain rfl := Except.ok.inj h
  exact partitioned_listingsOf hlistings

end Catalog

end ProcCatalog
