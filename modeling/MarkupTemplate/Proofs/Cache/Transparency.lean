import Mathlib.Data.List.Pairwise
import MarkupTemplate.Proofs.Cache.Entries

/-!
# Caches in use

However a cache was used, what it gives out is what compiling would give, and as long as a source
stays in it, this is one and the same compiled template.  Sources are told apart by where their
fragments are kept and how many belong to them; so what a source says is taken to be determined by
that.
-/

namespace MarkupTemplate.Cache

open LruMap

/-! ## Requests -/

/-- What a caller may ask of a cache. -/
inductive Request where
  | getOrCompile (source : Source)
  | get (source : Source)
  | warm (sources : List Source)
  | render (document : Document) (source : Source) (values : List Value)
  | clear

/-- The sources that a request names. -/
def Request.sources : Request → List Source
  | .getOrCompile source => [source]
  | .get source => [source]
  | .warm sources => sources
  | .render _ source _ => [source]
  | .clear => []

/-- What the sources say is what is kept in their places. -/
def Request.Reads (contents : SourceKey → List String) (request : Request) : Prop :=
  ∀ source ∈ request.sources, source.fragments = contents source.key

/-- The cache after a request. -/
def serve (cache : Cache) : Request → Cache
  | .getOrCompile source => (cache.getOrCompile source).cache
  | .get _ => cache
  | .warm sources => (cache.warm sources).cache
  | .render document source values => (cache.render document source values).cache
  | .clear => cache.clear

def serveAll (cache : Cache) (requests : List Request) : Cache :=
  requests.foldl serve cache

variable {cache : Cache} {contents : SourceKey → List String} {key : SourceKey}
  {shared found : SharedTemplate} {source : Source} {sources : List Source}
  {request : Request} {requests : List Request}

/-! ## Sound caches -/

/-- Every template in the cache was compiled from its source, in a compilation of its own. -/
structure Sound (contents : SourceKey → List String) (cache : Cache) : Prop where
  compiled : ∀ {key shared}, (key, shared) ∈ cache.entries →
    Template.compile cache.options (contents key) = .ok shared.template
  numbered : ∀ {entry}, entry ∈ cache.entries → entry.2.serial < cache.compilations
  distinct : cache.entries.Pairwise fun first second => first.2.serial ≠ second.2.serial

namespace Sound

theorem empty (contents : SourceKey → List String) (options : CompileOptions)
    (capacity : Option Nat) (compilations : Nat) :
    Sound contents { options, capacity, compilations } :=
  ⟨fun member => absurd member List.not_mem_nil, fun member => absurd member List.not_mem_nil,
    List.Pairwise.nil⟩

/-- A template has one source. -/
theorem key_eq (sound : Sound contents cache) {first second : SourceKey}
    {earlier later : SharedTemplate} (isFirst : (first, earlier) ∈ cache.entries)
    (isSecond : (second, later) ∈ cache.entries) (same : earlier.serial = later.serial) :
    first = second := by
  have symmetric : Std.Symm fun first second : SourceKey × SharedTemplate =>
      first.2.serial ≠ second.2.serial := ⟨fun _ _ apart => Ne.symm apart⟩
  by_contra different
  exact sound.distinct.forall isFirst isSecond
    (fun equal => different (Prod.mk.inj equal).1) same

theorem recount (sound : Sound contents cache) {count : Nat} (grown : cache.compilations ≤ count) :
    Sound contents { cache with compilations := count } :=
  ⟨sound.compiled, fun member => Nat.lt_of_lt_of_le (sound.numbered member) grown, sound.distinct⟩

theorem put (sound : Sound contents cache)
    (compiled : Template.compile cache.options (contents key) = .ok shared.template)
    (numbered : shared.serial < cache.compilations)
    (own : ∀ entry ∈ cache.entries, entry.1 ≠ key → entry.2.serial ≠ shared.serial) :
    Sound contents (cache.put key shared) := by
  refine ⟨fun member => ?_, fun member => ?_, ?_⟩
  · rcases mem_entries_put member with same | ⟨old, _⟩
    · obtain ⟨rfl, rfl⟩ := Prod.mk.inj same
      exact compiled
    · exact sound.compiled old
  · rcases mem_entries_put member with rfl | ⟨old, _⟩
    · exact numbered
    · exact sound.numbered old
  · refine List.Pairwise.sublist (keep_begins cache.toLruMap _).sublist (List.pairwise_cons.2 ⟨?_, ?_⟩)
    · intro entry member
      rw [others, List.mem_filter] at member
      exact Ne.symm (own entry member.1 (by simpa using member.2))
    · exact sound.distinct.sublist List.filter_sublist

theorem putAll {outcomes : List (SourceKey × Except Error SharedTemplate)}
    (sound : Sound contents cache)
    (compiled : ∀ key shared, (key, .ok shared) ∈ outcomes →
      Template.compile cache.options (contents key) = .ok shared.template ∧
        shared.serial < cache.compilations ∧
        ∀ entry ∈ cache.entries, entry.2.serial ≠ shared.serial)
    (distinct : outcomes.Pairwise fun first second =>
      ∀ earlier later, first.2 = .ok earlier → second.2 = .ok later →
        earlier.serial ≠ later.serial) :
    Sound contents (cache.putAll outcomes) := by
  induction outcomes generalizing cache with
  | nil => exact sound
  | cons first rest inductionHypothesis =>
      obtain ⟨key, outcome⟩ := first
      rw [List.pairwise_cons] at distinct
      cases outcome with
      | error cause =>
          exact inductionHypothesis sound
            (fun other shared later => compiled other shared (List.mem_cons_of_mem _ later))
            distinct.2
      | ok shared =>
          obtain ⟨isCompiled, numbered, own⟩ := compiled key shared List.mem_cons_self
          refine inductionHypothesis (sound.put isCompiled numbered fun entry member _ =>
            own entry member) ?_ distinct.2
          intro other next later
          obtain ⟨isNext, nextNumbered, nextOwn⟩ :=
            compiled other next (List.mem_cons_of_mem _ later)
          refine ⟨isNext, nextNumbered, fun entry member => ?_⟩
          rcases mem_entries_put member with rfl | ⟨old, _⟩
          · exact distinct.1 _ later shared next rfl rfl
          · exact nextOwn entry old

/-! ## Getting templates from a sound cache -/

theorem getOrCompile (sound : Sound contents cache)
    (reads : source.fragments = contents source.key) :
    Sound contents (cache.getOrCompile source).cache := by
  cases search : cache.find? source.key with
  | some shared =>
      have member := mem_entries_of_find? search
      rw [(getOrCompile_of_find? search).1]
      refine sound.put (sound.compiled member) (sound.numbered member) ?_
      exact fun entry isEntry different same => different (sound.key_eq isEntry member same)
  | none =>
      rw [(getOrCompile_of_missing search).2]
      rcases cache.compile_cases source with ⟨template, compiled, same⟩ | ⟨cause, _, same⟩
      · rw [same]
        refine (sound.recount (Nat.le_succ _)).put (reads ▸ compiled) (Nat.lt_succ_self _) ?_
        exact fun entry member _ => Nat.ne_of_lt (sound.numbered member)
      · rw [same]
        exact sound

theorem warm (sound : Sound contents cache)
    (reads : ∀ source ∈ sources, source.fragments = contents source.key) :
    Sound contents (cache.warm sources).cache := by
  obtain ⟨_, grown, counted⟩ := cache.exists_compileAll_fst (cache.misses sources)
  have still : Sound contents (cache.compileAll (cache.misses sources)).1 := by
    rw [counted]
    exact sound.recount grown
  refine still.putAll (fun key shared member => ?_) (cache.pairwise_compileAll _)
  obtain ⟨source, isMiss, rfl, outcome⟩ := exists_source_of_mem_compileAll member
  obtain ⟨least, most⟩ := serial_of_mem_compileAll member
  refine ⟨?_, most, ?_⟩
  · rw [counted, ← reads source (mem_misses isMiss).1, ← outcome]
    rfl
  · rw [counted]
    exact fun entry old => Nat.ne_of_lt (Nat.lt_of_lt_of_le (sound.numbered old) least)

/-- Every request leaves a sound cache sound. -/
theorem serve (sound : Sound contents cache) (reads : request.Reads contents) :
    Sound contents (cache.serve request) := by
  cases request with
  | getOrCompile source => exact sound.getOrCompile (reads source List.mem_cons_self)
  | get source => exact sound
  | warm sources => exact sound.warm reads
  | render document source values =>
      rw [Cache.serve, cache_render]
      exact sound.getOrCompile (reads source List.mem_cons_self)
  | clear => exact .empty contents cache.options cache.capacity cache.compilations

theorem serveAll (sound : Sound contents cache)
    (reads : ∀ request ∈ requests, request.Reads contents) :
    Sound contents (cache.serveAll requests) := by
  induction requests generalizing cache with
  | nil => exact sound
  | cons first rest inductionHypothesis =>
      rw [List.forall_mem_cons] at reads
      exact inductionHypothesis (sound.serve reads.1) reads.2

/-- Whether a source is in the cache or not, it compiles to what is given out. -/
theorem result_getOrCompile (sound : Sound contents cache)
    (reads : source.fragments = contents source.key) :
    (cache.getOrCompile source).result.map SharedTemplate.template =
      Template.compile cache.options source.fragments := by
  cases search : cache.find? source.key with
  | some shared =>
      rw [(getOrCompile_of_find? search).2, reads, sound.compiled (mem_entries_of_find? search)]
      rfl
  | none => rw [(getOrCompile_of_missing search).1, cache.outcome_compile source]

end Sound

/-! ## What does not change -/

theorem options_putAll (cache : Cache)
    (outcomes : List (SourceKey × Except Error SharedTemplate)) :
    (cache.putAll outcomes).options = cache.options := by
  induction outcomes generalizing cache with
  | nil => rfl
  | cons first rest inductionHypothesis =>
      obtain ⟨key, outcome⟩ := first
      cases outcome with
      | ok shared => exact inductionHypothesis (cache.put key shared)
      | error cause => exact inductionHypothesis cache

theorem options_getOrCompile (cache : Cache) (source : Source) :
    (cache.getOrCompile source).cache.options = cache.options := by
  cases search : cache.find? source.key with
  | some shared =>
      rw [(getOrCompile_of_find? search).1]
      rfl
  | none =>
      rw [(getOrCompile_of_missing search).2]
      rcases cache.compile_cases source with ⟨template, _, same⟩ | ⟨cause, _, same⟩
      · rw [same]
        rfl
      · rw [same]

theorem options_serve (cache : Cache) (request : Request) :
    (cache.serve request).options = cache.options := by
  cases request with
  | getOrCompile source => exact cache.options_getOrCompile source
  | get source => rfl
  | warm sources =>
      obtain ⟨_, _, counted⟩ := cache.exists_compileAll_fst (cache.misses sources)
      refine (options_putAll _ _).trans ?_
      rw [counted]
  | render document source values =>
      rw [serve, cache_render]
      exact cache.options_getOrCompile source
  | clear => rfl

theorem options_serveAll (cache : Cache) (requests : List Request) :
    (cache.serveAll requests).options = cache.options := by
  induction requests generalizing cache with
  | nil => rfl
  | cons first rest inductionHypothesis =>
      exact (inductionHypothesis (cache.serve first)).trans (cache.options_serve first)

/-- A source that is in the cache before and after a request has the same template. -/
theorem find?_serve (before : cache.find? key = some shared)
    (after : (cache.serve request).find? key = some found) : found = shared := by
  have got : ∀ source, (cache.getOrCompile source).cache.find? key = some found →
      found = shared := by
    intro source after
    cases search : cache.find? source.key with
    | some own =>
        rw [(getOrCompile_of_find? search).1] at after
        by_cases same : key = source.key
        · subst same
          exact (find?_put_self after).trans (Option.some.inj (search.symm.trans before))
        · exact Option.some.inj ((find?_put_of_ne same after).symm.trans before)
    | none =>
        have different : key ≠ source.key := by
          rintro rfl
          rw [search] at before
          contradiction
        rw [(getOrCompile_of_missing search).2] at after
        rcases cache.compile_cases source with ⟨template, _, same⟩ | ⟨cause, _, same⟩
        · rw [same] at after
          exact Option.some.inj ((find?_put_of_ne different after).symm.trans before)
        · rw [same] at after
          exact Option.some.inj (after.symm.trans before)
  cases request with
  | getOrCompile source => exact got source after
  | get source => exact Option.some.inj (after.symm.trans before)
  | warm sources => exact find?_warm before after
  | render document source values =>
      rw [serve, cache_render] at after
      exact got source after
  | clear => contradiction

/-- A source that stays in the cache keeps its template. -/
theorem find?_serveAll (before : cache.find? key = some shared)
    (stays : ∀ served, served <+: requests → ((cache.serveAll served).find? key).isSome) :
    (cache.serveAll requests).find? key = some shared := by
  induction requests generalizing cache with
  | nil => exact before
  | cons first rest inductionHypothesis =>
      have next : ∀ served, served <+: rest →
          (((cache.serve first).serveAll served).find? key).isSome := fun served isServed =>
        stays (first :: served) (List.cons_prefix_cons.2 ⟨rfl, isServed⟩)
      obtain ⟨found, here⟩ := Option.isSome_iff_exists.1 (next [] List.nil_prefix)
      exact inductionHypothesis (find?_serve before here ▸ here) next

/-! ## Getting templates -/

/-- Every way to get the template of the source gives this one. -/
structure Gives (cache : Cache) (source : Source) (shared : SharedTemplate) : Prop where
  get : cache.find? source.key = some shared
  getOrCompile : (cache.getOrCompile source).result = .ok shared
  warm : ∀ (sources : List Source) (index : Nat), sources[index]? = some source →
    (cache.warm sources).result[index]? = some (.ok shared)

theorem gives_of_find? (present : cache.find? source.key = some shared) :
    cache.Gives source shared where
  get := present
  getOrCompile := (getOrCompile_of_find? present).2
  warm _ _ place := getElem?_result_warm place present

/-- Rendering through the cache is compiling and then instantiating. -/
theorem render_eq (sound : Sound contents cache) (reads : source.fragments = contents source.key)
    (document : Document) (values : List Value) :
    (∀ template, Template.compile cache.options source.fragments = .ok template →
      (cache.render document source values).result.outcome =
          (Instance.create document template values).outcome ∧
        (cache.render document source values).result.document =
          (Instance.create document template values).document) ∧
      ∀ cause, Template.compile cache.options source.fragments = .error cause →
        (cache.render document source values).result.outcome = .error cause ∧
          (cache.render document source values).result.document = document := by
  have result := sound.result_getOrCompile reads
  unfold render
  cases got : (cache.getOrCompile source).result with
  | ok shared =>
      rw [got] at result
      rw [← result]
      refine ⟨fun template compiled => ?_, fun cause refused => by contradiction⟩
      obtain rfl : shared.template = template := Except.ok.inj compiled
      simp only [got]
      exact ⟨rfl, rfl⟩
  | error refusal =>
      rw [got] at result
      rw [← result]
      refine ⟨fun template compiled => by contradiction, fun cause refused => ?_⟩
      obtain rfl : refusal = cause := Except.error.inj refused
      simp only [got]
      exact ⟨trivial, trivial⟩

/-- What the cache gives out under these options is what compiling would give. -/
structure Transparent (options : CompileOptions) (contents : SourceKey → List String)
    (cache : Cache) : Prop where
  /-- What is held for a source was compiled from this source. -/
  compiled : ∀ key shared, (key, shared) ∈ cache.entries →
    Template.compile options (contents key) = .ok shared.template
  /-- A template was compiled for one source, and numbered by its compilation. -/
  own : ∀ key shared, (key, shared) ∈ cache.entries → shared.serial < cache.compilations ∧
    ∀ other, (other, shared) ∈ cache.entries → other = key
  renewed : ∀ source shared, cache.find? source.key = none →
    (cache.getOrCompile source).result = .ok shared → shared.serial = cache.compilations
  /-- A source that does not compile is not held. -/
  failing : ∀ key cause, Template.compile options (contents key) = .error cause →
    cache.find? key = none
  result : ∀ source, source.fragments = contents source.key →
    (cache.getOrCompile source).result.map SharedTemplate.template =
      Template.compile options source.fragments
  refused : ∀ source cause, (cache.getOrCompile source).result = .error cause →
    (cache.getOrCompile source).cache = cache
  /-- As long as a source stays in the cache, every way to get its template gives the same one. -/
  shares : ∀ source shared, cache.find? source.key = some shared → ∀ later,
    (∀ served, served <+: later → ((cache.serveAll served).find? source.key).isSome) →
      (cache.serveAll later).Gives source shared
  /-- Rendering is compiling and then instantiating. -/
  renders : ∀ source, source.fragments = contents source.key → ∀ document values template,
    Template.compile options source.fragments = .ok template →
      (cache.render document source values).result.outcome =
          (Instance.create document template values).outcome ∧
        (cache.render document source values).result.document =
          (Instance.create document template values).document
  fails : ∀ source, source.fragments = contents source.key → ∀ document values cause,
    Template.compile options source.fragments = .error cause →
      (cache.render document source values).result.outcome = .error cause ∧
        (cache.render document source values).result.document = document

/-- A cache, however it was used, gives out what compiling would, and shares what it holds. -/
theorem transparent_of_requests (options : CompileOptions) (capacity : Option Nat)
    (reads : ∀ request ∈ requests, request.Reads contents) :
    Transparent options contents (serveAll { options, capacity } requests) := by
  have sound := (Sound.empty contents options capacity 0).serveAll reads
  have same : (serveAll { options, capacity } requests).options = options :=
    options_serveAll _ requests
  generalize serveAll { options, capacity } requests = cache at sound same
  subst same
  constructor
  · exact fun key shared member => sound.compiled member
  · exact fun key shared member => ⟨sound.numbered member, fun other isOther =>
      sound.key_eq isOther member rfl⟩
  · intro source shared missing got
    rw [(getOrCompile_of_missing missing).1] at got
    exact (serial_compile got).1
  · intro key cause refused
    by_contra present
    obtain ⟨shared, found⟩ := Option.ne_none_iff_exists'.1 present
    rw [sound.compiled (mem_entries_of_find? found)] at refused
    contradiction
  · exact fun source isRead => sound.result_getOrCompile isRead
  · exact fun source cause refused => getOrCompile_of_error refused
  · exact fun source shared present later stays => gives_of_find? (find?_serveAll present stays)
  · exact fun source isRead document values => (render_eq sound isRead document values).1
  · exact fun source isRead document values => (render_eq sound isRead document values).2

/-- Of two sources that begin in the same place, the shorter one was given up for the longer one. -/
theorem gives_after_eviction :
    let contents := fun key : SourceKey => ["<p>", "</p>"].take key.length
    let short : Source := ⟨⟨0, 1⟩, ["<p>"]⟩
    let long : Source := ⟨⟨0, 2⟩, ["<p>", "</p>"]⟩
    let cache := serveAll { options := {}, capacity := some 1 }
      [.getOrCompile short, .warm [long, short]]
    (∀ request ∈ [Request.getOrCompile short, .warm [long, short]], request.Reads contents) ∧
      cache.find? short.key = none ∧
      ∃ shared, (cache.serveAll [.getOrCompile long, .get short]).Gives long shared := by
  intro contents short long cache
  have reads : ∀ request ∈ [Request.getOrCompile short, .warm [long, short]],
      request.Reads contents := by
    simp only [Request.Reads]
    decide
  have present : (cache.find? long.key).isSome := by decide +kernel
  obtain ⟨shared, found⟩ := Option.isSome_iff_exists.1 present
  have stays : ∀ served ∈ [Request.getOrCompile long, .get short].inits,
      ((cache.serveAll served).find? long.key).isSome := by decide +kernel
  have transparent : Transparent {} contents cache := transparent_of_requests {} (some 1) reads
  refine ⟨reads, by decide +kernel, shared, transparent.shares long shared found _ ?_⟩
  exact fun served isServed => stays served ((List.mem_inits ..).2 isServed)

end MarkupTemplate.Cache
