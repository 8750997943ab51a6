import MarkupTemplate.Proofs.Cache.Transparency

/-!
# What a cache holds

A key is touched when its template is got from the cache, and when it is put in after it was
compiled.  A cache holds the keys touched most recently since it was last cleared, as many as its
capacity allows, and it holds them in this order.  So the key that was touched longest ago makes
room for another one, and a request that touches nothing does not change which one that is.
-/

namespace MarkupTemplate

namespace Cache

open LruMap

variable {cache : Cache} {key : SourceKey} {shared : SharedTemplate} {source : Source}
  {touches : List SourceKey} {request : Request}

/-! ## Touching keys -/

/-- The source compiles under the options of the cache. -/
def compiles (cache : Cache) (source : Source) : Bool :=
  (Template.compile cache.options source.fragments).isOk

/-- The sources, each of them once, in the order of their first occurrence. -/
def listedOnce (sources : List Source) : List Source :=
  sources.eraseDupsBy fun later earlier => later.key == earlier.key

/-- The keys that a request touches, one after the other.  A key that is got is touched if the
cache holds it or its source compiles; a warm-up touches only what it has to compile. -/
def touched (cache : Cache) : Request → List SourceKey
  | .getOrCompile source =>
      if source.key ∈ cache.keys ∨ cache.compiles source then [source.key] else []
  | .get _ => []
  | .warm sources =>
      ((listedOnce sources).filter fun source =>
        source.key ∉ cache.keys ∧ cache.compiles source).map Source.key
  | .render _ source _ =>
      if source.key ∈ cache.keys ∨ cache.compiles source then [source.key] else []
  | .clear => []

/-- The touches since the last clearing, the most recent first, after a request to a cache that had
these before. -/
def record (cache : Cache) (touches : List SourceKey) : Request → List SourceKey
  | .clear => []
  | request => (cache.touched request).reverse ++ touches

/-- The touches since the last clearing after requests, one after the other. -/
def recordAll (cache : Cache) (touches : List SourceKey) : List Request → List SourceKey
  | [] => touches
  | request :: rest => (cache.serve request).recordAll (cache.record touches request) rest

/-! ## Putting in -/

/-- The keys of the outcomes that are templates. -/
def succeeded (outcomes : List (SourceKey × Except Error SharedTemplate)) : List SourceKey :=
  (outcomes.filter fun entry => entry.2.isOk).map Prod.fst

theorem keys_putAll (recent : cache.keys = mostRecent cache.capacity touches)
    (outcomes : List (SourceKey × Except Error SharedTemplate)) :
    (cache.putAll outcomes).keys =
        mostRecent cache.capacity ((succeeded outcomes).reverse ++ touches) ∧
      (cache.putAll outcomes).capacity = cache.capacity := by
  induction outcomes generalizing cache touches with
  | nil => exact ⟨recent, rfl⟩
  | cons first rest inductionHypothesis =>
      obtain ⟨key, outcome⟩ := first
      cases outcome with
      | error cause => exact inductionHypothesis recent
      | ok shared =>
          have put : (cache.put key shared).keys =
              mostRecent (cache.put key shared).capacity (key :: touches) := keys_put recent
          have onward := inductionHypothesis put
          refine ⟨?_, onward.2⟩
          rw [putAll, onward.1]
          congr 1
          simp [succeeded, Except.isOk, Except.toBool]

/-! ## Compiling -/

theorem compiles_of_ok {template : Template}
    (compiled : Template.compile cache.options source.fragments = .ok template) :
    cache.compiles source = true := by
  rw [compiles, compiled]
  rfl

theorem compiles_of_error {cause : Error}
    (refused : Template.compile cache.options source.fragments = .error cause) :
    cache.compiles source = false := by
  rw [compiles, refused]
  rfl

theorem isOk_compile (cache : Cache) (source : Source) :
    (cache.compile source).2.isOk = cache.compiles source := by
  rw [compiles, ← cache.outcome_compile source]
  cases (cache.compile source).2 <;> rfl

theorem succeeded_compileAll (cache : Cache) (sources : List Source) :
    succeeded (cache.compileAll sources).2 = (sources.filter cache.compiles).map Source.key := by
  induction sources generalizing cache with
  | nil => rfl
  | cons first rest inductionHypothesis =>
      obtain ⟨count, _, here⟩ := cache.exists_compile_fst first
      have onward := inductionHypothesis (cache.compile first).1
      have same : (cache.compile first).1.compiles = cache.compiles := by
        rw [here]
        rfl
      rw [same, succeeded] at onward
      rw [compileAll, succeeded, List.filter_cons, List.filter_cons, isOk_compile]
      split
      · rw [List.map_cons, onward, List.map_cons]
      · exact onward

/-- Sources are left out by their keys before or after repetitions are. -/
theorem listedOnce_filter (keeps : SourceKey → Bool) (sources : List Source) :
    listedOnce (sources.filter fun source => keeps source.key) =
      (listedOnce sources).filter fun source => keeps source.key := by
  refine eraseDupsBy_filter (fun earlier later same => ?_) sources
  rw [eq_of_beq same]

theorem listedOnce_cons (first : Source) (rest : List Source) :
    listedOnce (first :: rest) =
      first :: (listedOnce rest).filter fun source => source.key ≠ first.key := by
  rw [← listedOnce_filter (· ≠ first.key), listedOnce, List.eraseDupsBy_cons, listedOnce]
  congr 2
  refine List.filter_congr fun later _ => ?_
  cases same : later.key == first.key <;> simp_all

/-- The cache does not hold the source, and it is not among those to compile. -/
def isNew (cache : Cache) (missing : List Source) (source : Source) : Bool :=
  (cache.find? source.key).isNone && !missing.any (·.key = source.key)

theorem addMiss_eq (cache : Cache) (missing : List Source) (source : Source) :
    cache.addMiss missing source =
      if cache.isNew missing source then missing ++ [source] else missing := by
  unfold addMiss isNew
  cases cache.find? source.key <;> cases missing.any (·.key = source.key) <;> rfl

theorem isNew_concat (cache : Cache) (missing : List Source) (listed source : Source) :
    cache.isNew (missing ++ [listed]) source =
      (decide (source.key ≠ listed.key) && cache.isNew missing source) := by
  rw [isNew, isNew, List.any_append]
  by_cases same : source.key = listed.key
  · simp [same]
  · simp [same, Ne.symm same]

theorem foldl_addMiss (cache : Cache) (sources missing : List Source) :
    sources.foldl cache.addMiss missing =
      missing ++ (listedOnce sources).filter (cache.isNew missing) := by
  induction sources generalizing missing with
  | nil => exact (List.append_nil missing).symm
  | cons first rest inductionHypothesis =>
      rw [List.foldl_cons, inductionHypothesis, listedOnce_cons, List.filter_cons,
        List.filter_filter, addMiss_eq]
      split
      · rw [List.append_assoc, List.singleton_append]
        congr 2
        refine List.filter_congr fun later _ => ?_
        rw [isNew_concat, Bool.and_comm]
      · rename_i known
        congr 1
        refine List.filter_congr fun later _ => ?_
        by_cases same : later.key = first.key
        · have knownToo : cache.isNew missing later = cache.isNew missing first := by
            rw [isNew, isNew, same]
          rw [knownToo, Bool.eq_false_iff.2 known, Bool.false_and]
        · simp [same]

/-- What a warm-up compiles are the listed sources that the cache does not hold, each once. -/
theorem misses_eq_filter (cache : Cache) (sources : List Source) :
    cache.misses sources =
      (listedOnce sources).filter fun source => (cache.find? source.key).isNone := by
  rw [misses_eq, foldl_addMiss, List.nil_append]
  exact List.filter_congr fun source _ => Bool.and_true _

/-- A warm-up touches what it compiles. -/
theorem touched_warm (cache : Cache) (sources : List Source) :
    cache.touched (.warm sources) =
      ((cache.misses sources).filter cache.compiles).map Source.key := by
  rw [touched, misses_eq_filter, List.filter_filter]
  congr 1
  refine List.filter_congr fun source _ => ?_
  rw [Bool.eq_iff_iff, decide_eq_true_eq, Bool.and_eq_true, Option.isNone_iff_eq_none,
    find?_eq_none_iff]
  exact and_comm

/-! ## Serving requests -/

theorem keys_getOrCompile (recent : cache.keys = mostRecent cache.capacity touches)
    (source : Source) :
    (cache.getOrCompile source).cache.keys =
        mostRecent cache.capacity ((cache.touched (.getOrCompile source)).reverse ++ touches) ∧
      (cache.getOrCompile source).cache.capacity = cache.capacity := by
  cases search : cache.find? source.key with
  | some shared =>
      rw [(getOrCompile_of_find? search).1, touched, if_pos (.inl (mem_keys_of_find? search))]
      exact ⟨keys_put recent, rfl⟩
  | none =>
      rw [(getOrCompile_of_missing search).2]
      have missing := find?_eq_none_iff.1 search
      rcases cache.compile_cases source with ⟨_, compiled, same⟩ | ⟨_, refused, same⟩
      · rw [same, touched, if_pos (.inr (compiles_of_ok compiled))]
        exact ⟨keys_put recent, rfl⟩
      · have fails := Bool.not_eq_true _ ▸ compiles_of_error refused
        rw [same, touched, if_neg (not_or.2 ⟨missing, fails⟩)]
        exact ⟨recent, rfl⟩

theorem keys_warm (recent : cache.keys = mostRecent cache.capacity touches)
    (sources : List Source) :
    (cache.warm sources).cache.keys =
        mostRecent cache.capacity ((cache.touched (.warm sources)).reverse ++ touches) ∧
      (cache.warm sources).cache.capacity = cache.capacity := by
  obtain ⟨count, _, counted⟩ := cache.exists_compileAll_fst (cache.misses sources)
  have still : (cache.compileAll (cache.misses sources)).1.keys =
      mostRecent (cache.compileAll (cache.misses sources)).1.capacity touches := by
    rw [counted]
    exact recent
  obtain ⟨keys, limit⟩ := keys_putAll still (cache.compileAll (cache.misses sources)).2
  rw [succeeded_compileAll, ← touched_warm] at keys
  rw [counted] at keys limit
  refine ⟨?_, ?_⟩
  · rw [warm, counted]
    exact keys
  · rw [warm, counted]
    exact limit

/-- A request makes the keys that it touches the most recent ones. -/
theorem keys_serve (recent : cache.keys = mostRecent cache.capacity touches)
    (request : Request) :
    (cache.serve request).keys = mostRecent cache.capacity (cache.record touches request) ∧
      (cache.serve request).capacity = cache.capacity := by
  cases request with
  | getOrCompile source => exact keys_getOrCompile recent source
  | get source => exact ⟨recent, rfl⟩
  | warm sources => exact keys_warm recent sources
  | render document source values =>
      rw [serve, cache_render]
      exact keys_getOrCompile recent source
  | clear =>
      exact ⟨(mostRecent_nil cache.capacity).symm, rfl⟩

theorem keys_serveAll (recent : cache.keys = mostRecent cache.capacity touches)
    (requests : List Request) :
    (cache.serveAll requests).keys =
        mostRecent cache.capacity (cache.recordAll touches requests) ∧
      (cache.serveAll requests).capacity = cache.capacity := by
  induction requests generalizing cache touches with
  | nil => exact ⟨recent, rfl⟩
  | cons first rest inductionHypothesis =>
      obtain ⟨keys, same⟩ := keys_serve recent first
      have onward := inductionHypothesis (same.symm ▸ keys)
      rw [same] at onward
      exact onward

/-! ## What a cache holds -/

/-- Of what was touched since the last clearing the cache holds the most recent part, and gives it
up from the other end. -/
structure HoldsMostRecent (capacity : Option Nat) (touches : List SourceKey) (cache : Cache) :
    Prop where
  keys : cache.keys = mostRecent capacity touches
  distinct : cache.keys.Nodup
  size_le : ∀ limit, capacity = some limit → cache.size ≤ limit
  /-- In a full cache the key touched longest ago makes room for another one. -/
  evicts : ∀ limit, capacity = some (limit + 1) → cache.size = limit + 1 →
    ∀ source, source.key ∉ cache.keys → cache.compiles source = true →
      (cache.serve (.getOrCompile source)).keys = source.key :: cache.keys.dropLast
  /-- What touches nothing leaves all keys in order: looking, a warm-up that finds everything or
  whose compilations fail, and a source that does not compile. -/
  idle : ∀ request, cache.touched request = [] → request ≠ .clear →
    (cache.serve request).keys = cache.keys
  /-- What a warm-up finds does not matter for the order. -/
  hits : ∀ sources, (cache.serve (.warm sources)).keys =
    (cache.serve (.warm (sources.filter fun source => source.key ∉ cache.keys))).keys

theorem record_of_ne_clear (proper : request ≠ .clear) :
    cache.record touches request = (cache.touched request).reverse ++ touches := by
  cases request with
  | clear => exact (proper rfl).elim
  | _ => rfl

/-- What was found is not touched. -/
theorem touched_warm_filter (cache : Cache) (sources : List Source) :
    cache.touched (.warm (sources.filter fun source => source.key ∉ cache.keys)) =
      cache.touched (.warm sources) := by
  rw [touched, listedOnce_filter (· ∉ cache.keys), List.filter_filter, touched]
  congr 1
  refine List.filter_congr fun source _ => ?_
  simp only [decide_not, Bool.decide_and]
  cases decide (source.key ∈ cache.keys) <;> simp

/-- In a full cache the key at the end makes room for the one that is put in. -/
theorem keys_getOrCompile_of_full {limit : Nat} (limited : cache.capacity = some (limit + 1))
    (full : cache.size = limit + 1) (missing : source.key ∉ cache.keys)
    (compiles : cache.compiles source = true) :
    (cache.getOrCompile source).cache.keys = source.key :: cache.keys.dropLast := by
  rw [(getOrCompile_of_missing (find?_eq_none_iff.2 missing)).2]
  rcases cache.compile_cases source with ⟨_, _, same⟩ | ⟨cause, refused, _⟩
  · rw [same]
    exact keys_put_of_full limited full missing
  · rw [compiles_of_error refused] at compiles
    contradiction

/-- A cache, however it was used, holds exactly what was touched most recently since it was last
cleared. -/
theorem holds_most_recent (options : CompileOptions) (capacity : Option Nat)
    (requests : List Request) :
    HoldsMostRecent capacity (recordAll { options, capacity } [] requests)
      (serveAll { options, capacity } requests) := by
  have fresh : ({ options, capacity } : Cache).keys = mostRecent capacity [] :=
    (mostRecent_nil capacity).symm
  obtain ⟨recent, same⟩ := keys_serveAll fresh requests
  generalize serveAll { options, capacity } requests = cache at recent same
  generalize recordAll { options, capacity } [] requests = touches at recent
  change cache.capacity = capacity at same
  subst same
  have step := fun request => (keys_serve recent request).1
  constructor
  · exact recent
  · exact recent ▸ nodup_mostRecent _ _
  · intro limit limited
    rw [← length_keys, recent, limited]
    exact List.length_take_le _ _
  · intro limit limited full source missing compiles
    exact keys_getOrCompile_of_full limited full missing compiles
  · intro request untouched proper
    rw [step, record_of_ne_clear proper, untouched]
    exact recent.symm
  · intro sources
    rw [step, step, record_of_ne_clear (by simp), record_of_ne_clear (by simp),
      touched_warm_filter]

/-- A source that a warm-up finds stays the next one to be given up. -/
example :
    let source := fun base : Nat => (⟨⟨base, 2⟩, ["<p>", "</p>"]⟩ : Source)
    (serveAll { options := {}, capacity := some 2 }
      [.getOrCompile (source 0), .getOrCompile (source 1), .warm [source 0],
        .getOrCompile (source 2)]).keys = [⟨2, 2⟩, ⟨1, 2⟩] := by
  decide +kernel

end Cache

end MarkupTemplate
