import MarkupTemplate.Instance
import MarkupTemplate.LruMap

/-!
# Caches of compiled templates

A cache compiles every source once and hands out the compiled template again as long as it keeps
it.  Sources are told apart by identity, not by what they say.  The templates are kept in a map that
gives up the one used longest ago when there would be too many; that the map does this is assumed,
and all else that a cache does is defined here in terms of it.

Compiled templates have an identity as well: the number of the compilation that made them.
-/

namespace MarkupTemplate

/-- The identity of a source: where its fragments are kept, and how many of them belong to it. -/
structure SourceKey where
  base : Nat
  length : Nat
  deriving DecidableEq, Repr

structure Source where
  key : SourceKey
  fragments : List String
  deriving DecidableEq, Repr

/-- A compiled template with the number of its compilation. -/
structure SharedTemplate where
  serial : Nat
  template : Template
  deriving DecidableEq, Repr

structure Cache extends LruMap SourceKey SharedTemplate where
  options : CompileOptions
  /-- The number of successful compilations so far. -/
  compilations : Nat := 0
  deriving DecidableEq, Repr

structure CacheAnswer (Result : Type) where
  cache : Cache
  result : Result
  log : List LogRecord := []

namespace Cache

/-! ## Entries -/

def put (cache : Cache) (key : SourceKey) (shared : SharedTemplate) : Cache :=
  { cache with toLruMap := cache.toLruMap.put key shared }

@[simp]
theorem toLruMap_put (cache : Cache) (key : SourceKey) (shared : SharedTemplate) :
    (cache.put key shared).toLruMap = cache.toLruMap.put key shared := rfl

def clear (cache : Cache) : Cache :=
  { cache with toLruMap := cache.toLruMap.clear }

/-! ## Compiling through the cache -/

/-- Compile a source under the options of the cache.  A success is numbered. -/
def compile (cache : Cache) (source : Source) : Cache × Except Error SharedTemplate :=
  match Template.compile cache.options source.fragments with
  | .ok template =>
      ( { cache with compilations := cache.compilations + 1 },
        .ok { serial := cache.compilations, template } )
  | .error cause => (cache, .error cause)

/-- The template of a source, which is compiled unless it is in the cache.  A source that does not
compile is not remembered. -/
def getOrCompile (cache : Cache) (source : Source) : CacheAnswer (Except Error SharedTemplate) :=
  match cache.find? source.key with
  | some shared => { cache := cache.put source.key shared, result := .ok shared }
  | none =>
      let missed := LogRecord.cacheMiss source.fragments.length cache.size
      let compiled := cache.compile source
      let log :=
        missed ::
          Template.compilationLog source.fragments (compiled.2.map SharedTemplate.template)
      match compiled.2 with
      | .ok shared => { cache := compiled.1.put source.key shared, result := .ok shared, log }
      | .error cause => { cache := compiled.1, result := .error cause, log }

/-- The sources that are not in the cache, each once, in the order of their first occurrence. -/
def misses (cache : Cache) (sources : List Source) : List Source :=
  sources.foldl
    (fun missing source =>
      if (cache.find? source.key).isSome || missing.any (·.key = source.key) then missing
      else missing ++ [source])
    []

/-- Compile sources one after the other, without putting them into the cache. -/
def compileAll (cache : Cache) :
    List Source → Cache × List (SourceKey × Except Error SharedTemplate)
  | [] => (cache, [])
  | source :: rest =>
      let compiled := cache.compile source
      let others := compiled.1.compileAll rest
      (others.1, (source.key, compiled.2) :: others.2)

/-- What is reported of compiling several sources at once.  A lone source is compiled in place and
its compilation reported; several are compiled side by side, without a report of each. -/
def compileAllLog : List Source → List (SourceKey × Except Error SharedTemplate) → List LogRecord
  | [source], [(_, outcome)] =>
      Template.compilationLog source.fragments (outcome.map SharedTemplate.template)
  | _, _ => []

/-- Put compiled sources into the cache one after the other, those that failed left out. -/
def putAll (cache : Cache) : List (SourceKey × Except Error SharedTemplate) → Cache
  | [] => cache
  | (key, .ok shared) :: rest => (cache.put key shared).putAll rest
  | (_, .error _) :: rest => cache.putAll rest

/-- The templates of several sources.  What is in the cache is taken from there, without counting
as use; everything else is compiled once, however often it is listed, and then put into the cache.
The results line up with the sources. -/
def warm (cache : Cache) (sources : List Source) :
    CacheAnswer (List (Except Error SharedTemplate)) :=
  let missing := cache.misses sources
  let compiled := cache.compileAll missing
  let result := sources.filterMap fun source =>
    match cache.find? source.key with
    | some shared => some (.ok shared)
    | none => (compiled.2.find? fun entry => entry.1 = source.key).map Prod.snd
  { cache := compiled.1.putAll compiled.2
    result
    log := compileAllLog missing compiled.2 ++ [.cacheWarmUp sources.length missing.length] }

def render (cache : Cache) (document : Document) (source : Source) (values : List Value) :
    CacheAnswer (Attempt Instance) :=
  let got := cache.getOrCompile source
  match got.result with
  | .ok shared =>
      { cache := got.cache
        result := (Instance.create document shared.template values).logged got.log }
  | .error cause =>
      { cache := got.cache
        result := { document, outcome := .error cause, log := got.log } }

end Cache

end MarkupTemplate
