import MarkupTemplate.Log

/-!
# Attempts

An operation that acts on a document in several steps may be refused halfway.  An attempt keeps
all that comes of it: the document as the steps left it, the result or the cause of the refusal,
and what was reported.
-/

namespace MarkupTemplate

structure Attempt (Result : Type) where
  document : Document
  outcome : Except Error Result
  log : List LogRecord := []

namespace Attempt

variable {Result Next : Type}

/-- An attempt at one step that either changes the document or is refused without a trace. -/
def ofEdit (document : Document) (edit : Except Error Document) : Attempt Unit :=
  match edit with
  | .ok edited => { document := edited, outcome := .ok () }
  | .error cause => { document, outcome := .error cause }

/-- Go on with the document and the result, unless the attempt was refused. -/
def andThen (attempt : Attempt Result) (next : Document → Result → Attempt Next) : Attempt Next :=
  match attempt.outcome with
  | .ok result =>
      let following := next attempt.document result
      { following with log := attempt.log ++ following.log }
  | .error cause =>
      { document := attempt.document, outcome := .error cause, log := attempt.log }

def logged (records : List LogRecord) (attempt : Attempt Result) : Attempt Result :=
  { attempt with log := records ++ attempt.log }

end Attempt

end MarkupTemplate
