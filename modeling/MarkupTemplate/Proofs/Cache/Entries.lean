import MarkupTemplate.Cache
import MarkupTemplate.Proofs.LruMap

/-!
# Entries of a cache

What looking up, putting in and compiling make of the entries of a cache.  Only the source that is
put into a cache gets another template; any other source keeps its own, or is given up.  A template
that is compiled gets a number that no template had before.
-/

namespace MarkupTemplate.Cache

open LruMap

variable {cache : Cache} {key other : SourceKey} {shared found : SharedTemplate}
  {source : Source} {sources : List Source}

/-! ## Compiling -/

/-- Everything that compiling one source may come to. -/
theorem compile_cases (cache : Cache) (source : Source) :
    (∃ template, Template.compile cache.options source.fragments = .ok template ∧
      cache.compile source = ({ cache with compilations := cache.compilations + 1 },
        .ok ⟨cache.compilations, template⟩)) ∨
    ∃ cause, Template.compile cache.options source.fragments = .error cause ∧
      cache.compile source = (cache, .error cause) := by
  unfold compile
  cases compiled : Template.compile cache.options source.fragments with
  | ok template => exact Or.inl ⟨template, rfl, rfl⟩
  | error cause => exact Or.inr ⟨cause, rfl, rfl⟩

theorem outcome_compile (cache : Cache) (source : Source) :
    (cache.compile source).2.map SharedTemplate.template =
      Template.compile cache.options source.fragments := by
  rcases cache.compile_cases source with ⟨template, compiled, same⟩ | ⟨cause, refused, same⟩
  · rw [same, compiled]
    rfl
  · rw [same, refused]
    rfl

theorem exists_compile_fst (cache : Cache) (source : Source) :
    ∃ count, cache.compilations ≤ count ∧
      (cache.compile source).1 = { cache with compilations := count } := by
  rcases cache.compile_cases source with ⟨template, _, same⟩ | ⟨cause, _, same⟩
  · exact ⟨cache.compilations + 1, Nat.le_succ _, by rw [same]⟩
  · exact ⟨cache.compilations, Nat.le_refl _, by rw [same]⟩

/-- A template is numbered when it is compiled. -/
theorem serial_compile (compiled : (cache.compile source).2 = .ok shared) :
    shared.serial = cache.compilations ∧
      (cache.compile source).1.compilations = cache.compilations + 1 := by
  rcases cache.compile_cases source with ⟨template, _, same⟩ | ⟨cause, _, same⟩
  · rw [same] at compiled ⊢
    exact ⟨congrArg SharedTemplate.serial (Except.ok.inj compiled).symm, rfl⟩
  · rw [same] at compiled
    contradiction

/-- Compiling changes nothing in a cache but the number of compilations. -/
theorem exists_compileAll_fst (cache : Cache) (sources : List Source) :
    ∃ count, cache.compilations ≤ count ∧
      (cache.compileAll sources).1 = { cache with compilations := count } := by
  induction sources generalizing cache with
  | nil => exact ⟨cache.compilations, Nat.le_refl _, rfl⟩
  | cons first rest inductionHypothesis =>
      obtain ⟨middle, grown, here⟩ := cache.exists_compile_fst first
      obtain ⟨count, further, others⟩ := inductionHypothesis (cache.compile first).1
      rw [here] at further others
      exact ⟨count, Nat.le_trans grown further, by rw [compileAll, here, others]⟩

/-- The outcomes line up with the sources. -/
theorem map_fst_compileAll (cache : Cache) (sources : List Source) :
    (cache.compileAll sources).2.map Prod.fst = sources.map Source.key := by
  induction sources generalizing cache with
  | nil => rfl
  | cons first rest inductionHypothesis =>
      rw [compileAll, List.map_cons, List.map_cons, inductionHypothesis]

/-- Every outcome is that of compiling one of the sources. -/
theorem exists_source_of_mem_compileAll {outcome : Except Error SharedTemplate}
    (member : (key, outcome) ∈ (cache.compileAll sources).2) :
    ∃ source ∈ sources, source.key = key ∧
      outcome.map SharedTemplate.template =
        Template.compile cache.options source.fragments := by
  induction sources generalizing cache with
  | nil => contradiction
  | cons first rest inductionHypothesis =>
      rw [compileAll, List.mem_cons, Prod.mk.injEq] at member
      rcases member with ⟨rfl, rfl⟩ | later
      · exact ⟨first, List.mem_cons_self, rfl, cache.outcome_compile first⟩
      · obtain ⟨_, _, here⟩ := cache.exists_compile_fst first
        obtain ⟨source, member, same, outcome⟩ := inductionHypothesis later
        rw [here] at outcome
        exact ⟨source, List.mem_cons_of_mem _ member, same, outcome⟩

/-- The templates are numbered by the compilations that were made. -/
theorem serial_of_mem_compileAll (member : (key, .ok shared) ∈ (cache.compileAll sources).2) :
    cache.compilations ≤ shared.serial ∧
      shared.serial < (cache.compileAll sources).1.compilations := by
  induction sources generalizing cache with
  | nil => contradiction
  | cons first rest inductionHypothesis =>
      rw [compileAll, List.mem_cons, Prod.mk.injEq] at member
      rw [compileAll]
      rcases member with ⟨_, compiled⟩ | later
      · obtain ⟨serial, next⟩ := serial_compile compiled.symm
        obtain ⟨_, further, same⟩ := (cache.compile first).1.exists_compileAll_fst rest
        rw [next] at further
        simp only [same, serial]
        exact ⟨Nat.le_refl _, further⟩
      · obtain ⟨_, grown, here⟩ := cache.exists_compile_fst first
        obtain ⟨least, most⟩ := inductionHypothesis later
        rw [here] at least
        exact ⟨Nat.le_trans grown least, most⟩

/-- No two of the templates have the same number. -/
theorem pairwise_compileAll (cache : Cache) (sources : List Source) :
    (cache.compileAll sources).2.Pairwise fun first second =>
      ∀ earlier later, first.2 = .ok earlier → second.2 = .ok later →
        earlier.serial ≠ later.serial := by
  induction sources generalizing cache with
  | nil => exact List.Pairwise.nil
  | cons first rest inductionHypothesis =>
      rw [compileAll]
      refine List.pairwise_cons.2 ⟨?_, inductionHypothesis (cache.compile first).1⟩
      rintro ⟨key, outcome⟩ member earlier later compiled rfl
      obtain ⟨serial, next⟩ := serial_compile compiled
      have least := (serial_of_mem_compileAll member).1
      omega

/-! ## Getting one template -/

theorem getOrCompile_of_find? (present : cache.find? source.key = some shared) :
    (cache.getOrCompile source).cache = cache.put source.key shared ∧
      (cache.getOrCompile source).result = .ok shared := by
  unfold getOrCompile
  rw [present]
  exact ⟨rfl, rfl⟩

theorem getOrCompile_of_missing (missing : cache.find? source.key = none) :
    (cache.getOrCompile source).result = (cache.compile source).2 ∧
      (cache.getOrCompile source).cache =
        (match (cache.compile source).2 with
        | .ok shared => (cache.compile source).1.put source.key shared
        | .error _ => (cache.compile source).1) := by
  unfold getOrCompile
  simp only [missing]
  cases (cache.compile source).2 with
  | ok shared => exact ⟨rfl, rfl⟩
  | error cause => exact ⟨rfl, rfl⟩

/-- A refusal leaves no trace in the cache. -/
theorem getOrCompile_of_error {cause : Error}
    (refused : (cache.getOrCompile source).result = .error cause) :
    (cache.getOrCompile source).cache = cache := by
  cases search : cache.find? source.key with
  | some shared =>
      rw [(getOrCompile_of_find? search).2] at refused
      contradiction
  | none =>
      obtain ⟨result, after⟩ := getOrCompile_of_missing search
      rw [result] at refused
      rcases cache.compile_cases source with ⟨template, _, same⟩ | ⟨other, _, same⟩
      · rw [same] at refused
        contradiction
      · rw [after, same]

theorem cache_render (cache : Cache) (document : Document) (source : Source)
    (values : List Value) :
    (cache.render document source values).cache = (cache.getOrCompile source).cache := by
  unfold render
  simp only
  split
  · rfl
  · rfl

/-! ## Getting several templates -/

/-- The sources to compile once another one is listed. -/
def addMiss (cache : Cache) (missing : List Source) (source : Source) : List Source :=
  if (cache.find? source.key).isSome || missing.any (·.key = source.key) then missing
  else missing ++ [source]

theorem misses_eq (cache : Cache) (sources : List Source) :
    cache.misses sources = sources.foldl cache.addMiss [] := rfl

theorem mem_addMiss {missing : List Source} {listed : Source}
    (member : source ∈ cache.addMiss missing listed) :
    source ∈ missing ∨ source = listed ∧ cache.find? source.key = none := by
  unfold addMiss at member
  split at member
  · exact Or.inl member
  · rename_i fresh
    rw [List.mem_append, List.mem_singleton] at member
    refine member.imp_right fun same => ⟨same, ?_⟩
    rw [Bool.or_eq_true, not_or, Bool.not_eq_true, Option.isSome_eq_false_iff,
      Option.isNone_iff_eq_none] at fresh
    exact same ▸ fresh.1

theorem subset_addMiss (cache : Cache) (missing : List Source) (listed : Source) :
    missing ⊆ cache.addMiss missing listed := by
  unfold addMiss
  split
  · exact List.Subset.refl missing
  · exact List.subset_append_left missing [listed]

theorem exists_mem_addMiss (missing : List Source) (absent : cache.find? source.key = none) :
    ∃ miss ∈ cache.addMiss missing source, miss.key = source.key := by
  unfold addMiss
  split
  · rename_i known
    simpa [absent] using known
  · exact ⟨source, by simp, rfl⟩

theorem mem_foldl_addMiss {missing : List Source}
    (member : source ∈ sources.foldl cache.addMiss missing) :
    source ∈ missing ∨ source ∈ sources ∧ cache.find? source.key = none := by
  induction sources generalizing missing with
  | nil => exact Or.inl member
  | cons first rest inductionHypothesis =>
      rcases inductionHypothesis member with before | ⟨later, absent⟩
      · exact (mem_addMiss before).imp_right fun ⟨same, absent⟩ =>
          ⟨same ▸ List.mem_cons_self, absent⟩
      · exact Or.inr ⟨List.mem_cons_of_mem _ later, absent⟩

theorem exists_mem_foldl_addMiss (absent : cache.find? source.key = none) {missing : List Source}
    (known : source ∈ sources ∨ ∃ miss ∈ missing, miss.key = source.key) :
    ∃ miss ∈ sources.foldl cache.addMiss missing, miss.key = source.key := by
  induction sources generalizing missing with
  | nil => exact known.resolve_left List.not_mem_nil
  | cons first rest inductionHypothesis =>
      apply inductionHypothesis
      rcases known with here | ⟨miss, old, same⟩
      · rcases List.mem_cons.1 here with rfl | later
        · exact Or.inr (exists_mem_addMiss missing absent)
        · exact Or.inl later
      · exact Or.inr ⟨miss, cache.subset_addMiss missing first old, same⟩

/-- Only listed sources are compiled, and of these only such as are not in the cache. -/
theorem mem_misses (member : source ∈ cache.misses sources) :
    source ∈ sources ∧ cache.find? source.key = none := by
  rw [misses_eq] at member
  exact (mem_foldl_addMiss member).resolve_left List.not_mem_nil

/-- Every listed source that is not in the cache is compiled. -/
theorem exists_miss (listed : source ∈ sources) (absent : cache.find? source.key = none) :
    ∃ miss ∈ cache.misses sources, miss.key = source.key := by
  rw [misses_eq]
  exact exists_mem_foldl_addMiss absent (Or.inl listed)

/-- The answers line up with the sources: what was in the cache is taken from there, and everything
else from what was compiled. -/
theorem map_some_result_warm (cache : Cache) (sources : List Source) :
    (cache.warm sources).result.map some = sources.map fun source =>
      match cache.find? source.key with
      | some shared => some (.ok shared)
      | none =>
          ((cache.compileAll (cache.misses sources)).2.find? fun entry =>
            entry.1 = source.key).map Prod.snd := by
  have answered : ∀ source ∈ sources, cache.find? source.key = none →
      (((cache.compileAll (cache.misses sources)).2.find? fun entry =>
        entry.1 = source.key).map Prod.snd).isSome := by
    intro source listed missing
    obtain ⟨miss, isMiss, same⟩ := exists_miss listed missing
    have inKeys : source.key ∈ (cache.compileAll (cache.misses sources)).2.map Prod.fst := by
      rw [map_fst_compileAll, List.mem_map]
      exact ⟨miss, isMiss, same⟩
    obtain ⟨entry, isEntry, isKey⟩ := List.mem_map.1 inKeys
    rw [Option.isSome_map, List.find?_isSome]
    exact ⟨entry, isEntry, by simpa using isKey⟩
  simp only [warm]
  generalize (cache.compileAll (cache.misses sources)).2 = outcomes at answered
  induction sources with
  | nil => rfl
  | cons first rest inductionHypothesis =>
      rw [List.forall_mem_cons] at answered
      have others := inductionHypothesis answered.2
      cases search : cache.find? first.key with
      | some shared => simp only [List.filterMap_cons, search, List.map_cons, others]
      | none =>
          obtain ⟨outcome, isOutcome⟩ := Option.isSome_iff_exists.1 (answered.1 search)
          simp only [List.filterMap_cons, search, isOutcome, List.map_cons, others]

theorem length_result_warm (cache : Cache) (sources : List Source) :
    (cache.warm sources).result.length = sources.length := by
  simpa using congrArg List.length (cache.map_some_result_warm sources)

theorem getElem?_result_warm {index : Nat} (place : sources[index]? = some source)
    (present : cache.find? source.key = some shared) :
    (cache.warm sources).result[index]? = some (.ok shared) := by
  have aligned := congrArg (·[index]?) (cache.map_some_result_warm sources)
  simp only [List.getElem?_map, place, Option.map_some, present] at aligned
  obtain ⟨answer, found, same⟩ := Option.map_eq_some_iff.1 aligned
  rw [found, Option.some.inj same]

/-- Putting compiled templates in leaves another source its template. -/
theorem find?_putAll {outcomes : List (SourceKey × Except Error SharedTemplate)}
    (absent : key ∉ outcomes.map Prod.fst)
    (present : (cache.putAll outcomes).find? key = some found) : cache.find? key = some found := by
  induction outcomes generalizing cache with
  | nil => exact present
  | cons first rest inductionHypothesis =>
      obtain ⟨other, outcome⟩ := first
      rw [List.map_cons, List.mem_cons, not_or] at absent
      cases outcome with
      | ok shared => exact find?_put_of_ne absent.1 (inductionHypothesis absent.2 present)
      | error cause => exact inductionHypothesis absent.2 present

/-- A source that is in the cache before and after several sources were got has the same
template. -/
theorem find?_warm (before : cache.find? key = some shared)
    (after : (cache.warm sources).cache.find? key = some found) : found = shared := by
  have absent : key ∉ (cache.compileAll (cache.misses sources)).2.map Prod.fst := by
    rw [map_fst_compileAll, List.mem_map]
    rintro ⟨miss, isMiss, rfl⟩
    rw [(mem_misses isMiss).2] at before
    contradiction
  have still := find?_putAll absent after
  obtain ⟨_, _, same⟩ := cache.exists_compileAll_fst (cache.misses sources)
  rw [same] at still
  exact Option.some.inj (still.symm.trans before)

end MarkupTemplate.Cache
