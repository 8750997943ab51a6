import Mathlib.Data.Option.Basic
import MarkupTemplate.Proofs.Cache.Recency

/-!
# Warming up a cache

A warm-up gives one answer for each source that it is given, in the same places.  What the cache
holds is given out as it is, even if the warm-up itself makes the cache give it up; of everything
else each source is compiled once, and its template is shared by all places where it is listed.  A
cache without a capacity ends up with the same templates, and with the same keys, as if the sources
had been got one after the other.
-/

namespace MarkupTemplate.Cache

open LruMap

variable {cache : Cache} {contents : SourceKey → List String} {key : SourceKey}
  {shared : SharedTemplate} {source : Source} {sources : List Source}

/-! ## Getting sources one after the other -/

/-- Get the templates of sources one after the other. -/
def getOrCompileAll (cache : Cache) : List Source → Cache × List (Except Error SharedTemplate)
  | [] => (cache, [])
  | source :: rest =>
      let got := cache.getOrCompile source
      let others := got.cache.getOrCompileAll rest
      (others.1, got.result :: others.2)

/-- The template that a source stands for: the one in the cache, or what compiling makes of it. -/
def standsFor (cache : Cache) (source : Source) : Except Error Template :=
  match cache.find? source.key with
  | some shared => .ok shared.template
  | none => Template.compile cache.options source.fragments

theorem result_getOrCompile (cache : Cache) (source : Source) :
    (cache.getOrCompile source).result.map SharedTemplate.template = cache.standsFor source := by
  unfold standsFor
  cases search : cache.find? source.key with
  | some shared =>
      rw [(getOrCompile_of_find? search).2]
      rfl
  | none =>
      rw [(getOrCompile_of_missing search).1]
      exact cache.outcome_compile source

/-! ## Caches without a capacity -/

theorem mem_keys_putAll (unbounded : cache.capacity = none)
    (outcomes : List (SourceKey × Except Error SharedTemplate)) (other : SourceKey) :
    other ∈ (cache.putAll outcomes).keys ↔
      other ∈ succeeded outcomes ∨ other ∈ cache.keys := by
  induction outcomes generalizing cache with
  | nil => simp [putAll, succeeded]
  | cons first rest inductionHypothesis =>
      obtain ⟨key, outcome⟩ := first
      cases outcome with
      | error cause => exact inductionHypothesis unbounded
      | ok shared =>
          have here : succeeded ((key, .ok shared) :: rest) = key :: succeeded rest := rfl
          have still : (cache.put key shared).capacity = none := unbounded
          rw [putAll, inductionHypothesis still, toLruMap_put, mem_keys_put unbounded, here,
            List.mem_cons]
          tauto

/-- What the keys of a cache without a capacity become when a source is got, and what the sources
stand for then. -/
theorem getOrCompile_unbounded (unbounded : cache.capacity = none)
    (reads : source.fragments = contents source.key) :
    (cache.getOrCompile source).cache.capacity = none ∧
      (cache.getOrCompile source).cache.options = cache.options ∧
      (∀ other, other ∈ (cache.getOrCompile source).cache.keys ↔
        other = source.key ∧ cache.compiles source = true ∨ other ∈ cache.keys) ∧
      ∀ other : Source, other.fragments = contents other.key →
        (cache.getOrCompile source).cache.standsFor other = cache.standsFor other := by
  cases search : cache.find? source.key with
  | some shared =>
      rw [(getOrCompile_of_find? search).1]
      refine ⟨unbounded, rfl, fun other => ?_, fun other _ => ?_⟩
      · rw [toLruMap_put, mem_keys_put unbounded]
        constructor
        · rintro (rfl | old)
          · exact .inr (mem_keys_of_find? search)
          · exact .inr old
        · exact fun old => old.imp And.left id
      · unfold standsFor
        rw [toLruMap_put, find?_put unbounded]
        by_cases same : other.key = source.key
        · rw [if_pos same, same, search]
        · rw [if_neg same]
          rfl
  | none =>
      rw [(getOrCompile_of_missing search).2]
      rcases cache.compile_cases source with ⟨_, compiled, same⟩ | ⟨_, refused, same⟩
      · simp only [same]
        refine ⟨unbounded, rfl, fun other => ?_, fun other isRead => ?_⟩
        · rw [toLruMap_put, mem_keys_put unbounded]
          simp only [compiles_of_ok compiled, and_true]
        · unfold standsFor
          rw [toLruMap_put, find?_put unbounded]
          by_cases here : other.key = source.key
          · rw [if_pos here, here, search, isRead, here, ← reads, compiled]
          · rw [if_neg here]
            rfl
      · rw [same]
        exact ⟨unbounded, rfl, fun other => by simp [compiles_of_error refused], fun _ _ => rfl⟩

theorem compiles_congr {other : Cache} (same : other.options = cache.options) :
    other.compiles = cache.compiles := by
  unfold compiles
  rw [same]

theorem getOrCompileAll_unbounded (unbounded : cache.capacity = none)
    (reads : ∀ source ∈ sources, source.fragments = contents source.key) :
    (cache.getOrCompileAll sources).2.map (·.map SharedTemplate.template) =
        sources.map cache.standsFor ∧
      ∀ key, key ∈ (cache.getOrCompileAll sources).1.keys ↔
        (∃ source ∈ sources, key = source.key ∧ cache.compiles source = true) ∨
          key ∈ cache.keys := by
  induction sources generalizing cache with
  | nil => exact ⟨rfl, fun key => by simp [getOrCompileAll]⟩
  | cons first rest inductionHypothesis =>
      rw [List.forall_mem_cons] at reads
      obtain ⟨still, options, keys, values⟩ := getOrCompile_unbounded unbounded reads.1
      obtain ⟨results, later⟩ := inductionHypothesis still reads.2
      constructor
      · rw [getOrCompileAll, List.map_cons, List.map_cons, results, result_getOrCompile]
        congr 1
        exact List.map_congr_left fun source member => values source (reads.2 source member)
      · intro key
        rw [getOrCompileAll, later, keys, compiles_congr options]
        rw [List.exists_mem_cons_iff, ← or_assoc]
        exact or_congr_left or_comm

/-! ## What a warm-up compiles -/

/-- The keys of the sources that the cache does not hold, each once, in the order of their first
occurrence. -/
def missingKeys (cache : Cache) (sources : List Source) : List SourceKey :=
  (sources.map Source.key).eraseDups.filter (· ∉ cache.keys)

theorem map_key_misses (cache : Cache) (sources : List Source) :
    (cache.misses sources).map Source.key = cache.missingKeys sources := by
  have held : (fun source : Source => (cache.find? source.key).isNone) =
      (fun key => decide (key ∉ cache.keys)) ∘ Source.key := by
    funext source
    rw [Bool.eq_iff_iff, Option.isNone_iff_eq_none, find?_eq_none_iff, Function.comp_apply,
      decide_eq_true_eq]
  rw [misses_eq_filter, held, ← List.filter_map, listedOnce, map_eraseDupsBy]
  rfl

theorem nodup_missingKeys (cache : Cache) (sources : List Source) :
    (cache.missingKeys sources).Nodup :=
  (nodup_eraseDups _).sublist List.filter_sublist

/-- What was compiled for a key is what compiling its source comes to. -/
theorem outcome_compileAll (reads : ∀ source ∈ sources, source.fragments = contents source.key)
    (reading : source.fragments = contents source.key) {outcome : Except Error SharedTemplate}
    (member : (source.key, outcome) ∈ (cache.compileAll (cache.misses sources)).2) :
    outcome.map SharedTemplate.template =
      Template.compile cache.options source.fragments := by
  obtain ⟨miss, isMiss, same, compiled⟩ := exists_source_of_mem_compileAll member
  rw [compiled, reads miss (mem_misses isMiss).1, same, reading]

theorem compilations_putAll (cache : Cache)
    (outcomes : List (SourceKey × Except Error SharedTemplate)) :
    (cache.putAll outcomes).compilations = cache.compilations := by
  induction outcomes generalizing cache with
  | nil => rfl
  | cons first rest inductionHypothesis =>
      obtain ⟨key, outcome⟩ := first
      cases outcome with
      | ok shared => exact inductionHypothesis (cache.put key shared)
      | error cause => exact inductionHypothesis cache

theorem compilations_compileAll (cache : Cache) (sources : List Source) :
    (cache.compileAll sources).1.compilations =
      cache.compilations + (sources.filter cache.compiles).length := by
  induction sources generalizing cache with
  | nil => rfl
  | cons first rest inductionHypothesis =>
      have options : (cache.compile first).1.options = cache.options := by
        obtain ⟨count, _, here⟩ := cache.exists_compile_fst first
        rw [here]
      rw [compileAll, inductionHypothesis, compiles_congr options, List.filter_cons]
      rcases cache.compile_cases first with ⟨_, compiled, same⟩ | ⟨_, refused, same⟩
      · rw [same, if_pos (compiles_of_ok compiled), List.length_cons, Nat.add_right_comm,
          Nat.add_assoc]
      · rw [same, compiles_of_error refused, if_neg Bool.false_ne_true]

/-! ## The answers -/

theorem getElem?_result_warm_of_missing {index : Nat} (place : sources[index]? = some source)
    (missing : source.key ∉ cache.keys) :
    ∃ outcome, (cache.warm sources).result[index]? = some outcome ∧
      (source.key, outcome) ∈ (cache.compileAll (cache.misses sources)).2 := by
  have aligned := congrArg (·[index]?) (cache.map_some_result_warm sources)
  simp only [List.getElem?_map, place, Option.map_some, find?_eq_none_iff.2 missing] at aligned
  obtain ⟨outcome, answer, found⟩ := Option.map_eq_some_iff.1 aligned
  obtain ⟨entry, search, rfl⟩ := Option.map_eq_some_iff.1 found.symm
  have isKey : entry.1 = source.key := by simpa using List.find?_some search
  exact ⟨entry.2, answer, isKey ▸ List.mem_of_find?_eq_some search⟩

/-- The answers of a warm-up line up with its sources, and agree with getting them one by one. -/
structure LinesUp (cache : Cache) (sources : List Source) : Prop where
  length : (cache.warm sources).result.length = sources.length
  /-- What the cache holds is given out as it is. -/
  held : ∀ (index : Nat) (source : Source) (shared : SharedTemplate),
    sources[index]? = some source → cache.find? source.key = some shared →
      (cache.warm sources).result[index]? = some (.ok shared)
  compiled : ∀ (index : Nat) (source : Source),
    sources[index]? = some source → source.key ∉ cache.keys →
      (cache.warm sources).result[index]?.map (·.map SharedTemplate.template) =
        some (Template.compile cache.options source.fragments)
  /-- All places of one source share one answer. -/
  shared : ∀ (index other : Nat) (first second : Source), sources[index]? = some first →
    sources[other]? = some second → first.key = second.key →
      (cache.warm sources).result[index]? = (cache.warm sources).result[other]?
  /-- A template that was missing is a new one, and no other source has it. -/
  own : ∀ (index other : Nat) (first second : Source) (earlier later : SharedTemplate),
    sources[index]? = some first → sources[other]? = some second →
      first.key ∉ cache.keys → second.key ∉ cache.keys →
        (cache.warm sources).result[index]? = some (.ok earlier) →
          (cache.warm sources).result[other]? = some (.ok later) →
            cache.compilations ≤ earlier.serial ∧
              (earlier.serial = later.serial → first.key = second.key)
  /-- Each missing source is compiled, and none of them twice. -/
  once : (cache.compileAll (cache.misses sources)).2.map Prod.fst = cache.missingKeys sources ∧
    (cache.missingKeys sources).Nodup
  reported : (cache.warm sources).log.getLast? =
    some (.cacheWarmUp sources.length (cache.missingKeys sources).length)
  counted : (cache.warm sources).cache.compilations =
    cache.compilations + (cache.touched (.warm sources)).length
  /-- Without a capacity, this is what getting the sources one after the other comes to. -/
  oneByOne : cache.capacity = none →
    (cache.warm sources).result.map (·.map SharedTemplate.template) =
        (cache.getOrCompileAll sources).2.map (·.map SharedTemplate.template) ∧
      ∀ key, key ∈ (cache.warm sources).cache.keys ↔
        key ∈ (cache.getOrCompileAll sources).1.keys

section Answers

variable (reads : ∀ source ∈ sources, source.fragments = contents source.key)

include reads

theorem getElem?_map_result_warm {index : Nat} (place : sources[index]? = some source)
    (missing : source.key ∉ cache.keys) :
    (cache.warm sources).result[index]?.map (·.map SharedTemplate.template) =
      some (Template.compile cache.options source.fragments) := by
  obtain ⟨outcome, answer, member⟩ := getElem?_result_warm_of_missing place missing
  have listed := reads source (List.mem_of_getElem? place)
  rw [answer, Option.map_some, outcome_compileAll reads listed member]

theorem map_result_warm :
    (cache.warm sources).result.map (·.map SharedTemplate.template) =
      sources.map cache.standsFor := by
  refine List.ext_getElem? fun index => ?_
  rw [List.getElem?_map, List.getElem?_map]
  cases place : sources[index]? with
  | none =>
      rw [List.getElem?_eq_none_iff] at place
      rw [List.getElem?_eq_none (cache.length_result_warm sources ▸ place)]
      rfl
  | some source =>
      rw [Option.map_some, standsFor]
      cases search : cache.find? source.key with
      | some shared =>
          rw [getElem?_result_warm place search]
          rfl
      | none => exact getElem?_map_result_warm reads place (find?_eq_none_iff.1 search)

theorem mem_keys_warm (unbounded : cache.capacity = none) (key : SourceKey) :
    key ∈ (cache.warm sources).cache.keys ↔
      (∃ source ∈ sources, key = source.key ∧ cache.compiles source = true) ∨
        key ∈ cache.keys := by
  obtain ⟨count, _, counted⟩ := cache.exists_compileAll_fst (cache.misses sources)
  have limitless : (cache.compileAll (cache.misses sources)).1.capacity = none := by
    rw [counted]
    exact unbounded
  have same : (cache.compileAll (cache.misses sources)).1.keys = cache.keys := by
    rw [counted]
  rw [warm, mem_keys_putAll limitless, same, succeeded_compileAll, List.mem_map]
  refine ⟨fun either => either.imp_left ?_, ?_⟩
  · rintro ⟨miss, isMiss, rfl⟩
    rw [List.mem_filter] at isMiss
    exact ⟨miss, (mem_misses isMiss.1).1, rfl, isMiss.2⟩
  · rintro (⟨source, listed, rfl, compiles⟩ | held)
    · by_cases held : source.key ∈ cache.keys
      · exact .inr held
      · obtain ⟨miss, isMiss, isKey⟩ := exists_miss listed (find?_eq_none_iff.2 held)
        refine .inl ⟨miss, List.mem_filter.2 ⟨isMiss, ?_⟩, isKey⟩
        rw [Cache.compiles, reads miss (mem_misses isMiss).1, isKey, ← reads source listed]
        exact compiles
    · exact .inr held

end Answers

/-- A warm-up lines up with its sources, whatever the cache holds and however much it may hold. -/
theorem warm_lines_up (cache : Cache)
    (reads : ∀ source ∈ sources, source.fragments = contents source.key) :
    LinesUp cache sources where
  length := cache.length_result_warm sources
  held index source shared place present := getElem?_result_warm place present
  compiled index source place missing := getElem?_map_result_warm reads place missing
  shared index other first second place placeToo same := by
    have aligned := cache.map_some_result_warm sources
    have here := congrArg (·[index]?) aligned
    have there := congrArg (·[other]?) aligned
    simp only [List.getElem?_map, place, placeToo, Option.map_some, same] at here there
    exact Option.map_injective (Option.some_injective _) (here.trans there.symm)
  own index other first second earlier later place placeToo missing missingToo answer
      answerToo := by
    obtain ⟨outcome, found, member⟩ := getElem?_result_warm_of_missing place missing
    obtain ⟨outcomeToo, foundToo, memberToo⟩ :=
      getElem?_result_warm_of_missing placeToo missingToo
    rw [answer, Option.some.injEq] at found
    rw [answerToo, Option.some.injEq] at foundToo
    subst found foundToo
    refine ⟨(serial_of_mem_compileAll member).1, fun same => ?_⟩
    have symmetric : Std.Symm fun first second : SourceKey × Except Error SharedTemplate =>
        ∀ earlier later, first.2 = .ok earlier → second.2 = .ok later →
          earlier.serial ≠ later.serial :=
      ⟨fun _ _ apart earlier later one two => (apart later earlier two one).symm⟩
    by_contra apart
    exact (cache.pairwise_compileAll _).forall member memberToo
      (fun equal => apart (Prod.mk.inj equal).1) earlier later rfl rfl same
  once := by
    rw [map_fst_compileAll, map_key_misses]
    exact ⟨rfl, nodup_missingKeys cache sources⟩
  reported := by
    rw [← map_key_misses, List.length_map, warm]
    exact List.getLast?_concat
  counted := by
    rw [touched_warm, List.length_map, ← compilations_compileAll]
    exact compilations_putAll _ _
  oneByOne := by
    intro unbounded
    obtain ⟨results, keys⟩ := getOrCompileAll_unbounded unbounded reads
    refine ⟨(map_result_warm reads).trans results.symm, fun key => ?_⟩
    rw [mem_keys_warm reads unbounded, keys]

/-- A source that is listed twice, one that is held and given up for the first, and one that does
not compile; in a cache for one template, and in one without a capacity. -/
theorem warm_lines_up_with_eviction :
    let contents := fun key : SourceKey =>
      if key.base = 9 then ["<div class=\"x-", "\"></div>"] else ["<p>", "</p>"]
    let source := fun base : Nat => (⟨⟨base, 2⟩, contents ⟨base, 2⟩⟩ : Source)
    let cache := fun capacity => serveAll { options := {}, capacity } [.getOrCompile (source 0)]
    let sources := [source 1, source 0, source 9, source 1]
    (∀ source ∈ sources, source.fragments = contents source.key) ∧
      (∀ capacity, LinesUp (cache capacity) sources) ∧
      ((cache (some 1)).warm sources).cache.find? (source 0).key = none := by
  intro contents source cache sources
  have reads : ∀ source ∈ sources, source.fragments = contents source.key := by decide
  exact ⟨reads, fun capacity => warm_lines_up (cache capacity) reads, by decide +kernel⟩

end MarkupTemplate.Cache
