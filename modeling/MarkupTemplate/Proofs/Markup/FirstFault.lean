import MarkupTemplate.Proofs.Markup.Building
import MarkupTemplate.Proofs.Markup.Offences

/-!
# The fault that strict reading reports

Strict reading stops at the first event after which a fault is known, and reports one fault.  As a
rule this is the first in the text: nothing is wrong with a construct that begins before the one
that the fault belongs to.  The exception is an end tag that is out of place behind constructs that
were dropped: their faults are not looked at before the end tag is taken, and it is the end tag that
is reported.
-/

namespace MarkupTemplate

open MarkupTemplate.Text

/-! ## Taking lexemes -/

namespace Lexeme

variable {lexeme : Lexeme}

theorem dropped_of_event? {strict : Bool} (silent : lexeme.event? strict = none)
    (unended : lexeme.construct ≠ .endOfText) : lexeme.construct = .dropped := by
  unfold event? at silent
  cases construct : lexeme.construct with
  | dropped => rfl
  | endOfText => exact absurd construct unended
  | _ =>
      rw [construct] at silent
      contradiction

theorem exists_endTag_of_nestingFault? {opened : List String} {fault : Fault}
    (found : lexeme.nestingFault? opened = some fault)
    (unended : lexeme.construct ≠ .endOfText) : ∃ name, lexeme.construct = .endTag name := by
  unfold nestingFault? at found
  cases construct : lexeme.construct with
  | endTag name => exact ⟨name, rfl⟩
  | endOfText => exact absurd construct unended
  | _ =>
      rw [construct] at found
      contradiction

end Lexeme

namespace TreeBuilder

variable {builder : TreeBuilder} {lexeme : Lexeme} {event : Event}

theorem nestingCause?_openNames (builder : TreeBuilder) (name : String) :
    (builder.closeElement true name).2 = nestingCause? builder.openNames name ∧
      ((builder.closeElement true name).2 = none →
        (builder.closeElement true name).1.openNames =
          (Bracket.closing name).leaves builder.openNames) := by
  unfold closeElement
  rcases splitAtName?_cases name builder.opened with ⟨missing, others⟩ |
    ⟨inner, element, outer, found, shape, others, agrees⟩
  · rw [missing]
    refine ⟨?_, by simp⟩
    rw [openNames]
    cases shape : builder.opened with
    | nil => rfl
    | cons innermost outer =>
        rw [shape, List.forall_mem_cons] at others
        simp only [List.map_cons, nestingCause?, others.1, Bool.false_eq_true, ↓reduceIte,
          List.any_map]
        rw [if_neg]
        simpa using others.2
  · rw [found, openNames, shape]
    cases inner with
    | nil => simp [nestingCause?, agrees, Bracket.leaves, openNames]
    | cons innermost inner =>
        rw [List.forall_mem_cons] at others
        refine ⟨?_, by simp⟩
        simp [nestingCause?, others.1, agrees]

/-- What strict building finds wrong with an event is the nesting at its lexeme, and the names that
are open after it are those that its lexeme leaves. -/
theorem take_eq_nestingFault? (builder : TreeBuilder) (found : lexeme.event? true = some event) :
    (builder.take true event).2.map (fun cause => (⟨lexeme.stop, cause⟩ : Fault)) =
        lexeme.nestingFault? builder.openNames ∧
      ((builder.take true event).2 = none →
        (builder.take true event).1.openNames = lexeme.leaves builder.openNames) := by
  unfold Lexeme.event? at found
  unfold Lexeme.nestingFault? Lexeme.leaves
  cases construct : lexeme.construct with
  | startTag name written =>
      rw [construct, Option.some.injEq] at found
      rw [← found]
      refine ⟨rfl, fun _ => ?_⟩
      rw [take, openElement, Construct.bracket?]
      cases isVoidElement (String.ofList name) <;> rfl
  | endTag name =>
      rw [construct, Option.some.injEq] at found
      rw [← found]
      have closed := nestingCause?_openNames builder (String.ofList name)
      exact ⟨congrArg (Option.map _) closed.1, closed.2⟩
  | dropped =>
      rw [construct] at found
      contradiction
  | endOfText =>
      rw [construct] at found
      contradiction
  | _ =>
      rw [construct, Option.some.injEq] at found
      rw [← found]
      exact ⟨rfl, fun _ => rfl⟩

end TreeBuilder

/-- The builder has taken lexemes with nothing wrong, behind which others were dropped, and the
reader knows the first fault of these. -/
structure Reads (builder : TreeBuilder) (seen : Option Fault) (clean dropped : List Lexeme) :
    Prop where
  sound : AreSound clean
  skipped : ∀ lexeme ∈ dropped, lexeme.construct = .dropped
  seen_eq : seen = (dropped.flatMap Lexeme.allFaults).head?
  names : builder.openNames = namesAfter [] clean

namespace Reads

variable {builder next : TreeBuilder} {seen : Option Fault} {clean dropped : List Lexeme}
  {lexeme : Lexeme}

theorem head?_allFaults (reads : Reads builder seen clean dropped) :
    (seen <|> lexeme.allFaults.head?) =
      ((dropped ++ [lexeme]).flatMap Lexeme.allFaults).head? := by
  rw [reads.seen_eq, List.flatMap_append, List.head?_append, List.flatMap_singleton,
    Option.orElse_eq_orElse, Option.orElse_eq_or]

theorem drop (reads : Reads builder seen clean dropped) (skipped : lexeme.construct = .dropped) :
    Reads builder (seen <|> lexeme.allFaults.head?) clean (dropped ++ [lexeme]) := by
  refine ⟨reads.sound, ?_, reads.head?_allFaults, reads.names⟩
  intro other member
  rcases List.mem_append.1 member with before | here
  · exact reads.skipped other before
  · rwa [List.mem_singleton.1 here]

/-- Nothing wrong was dropped, and nothing is wrong with the lexeme. -/
theorem take (reads : Reads builder seen clean dropped)
    (faultless : (seen <|> lexeme.allFaults.head?) = none)
    (nested : lexeme.nestingFault? (namesAfter [] clean) = none)
    (names : next.openNames = lexeme.leaves (namesAfter [] clean)) :
    Reads next none (clean ++ (dropped ++ [lexeme])) [] := by
  rw [reads.head?_allFaults, List.head?_eq_none_iff] at faultless
  have opened : namesAfter (namesAfter [] clean) dropped = namesAfter [] clean :=
    namesAfter_of_dropped reads.skipped
  have owned : HasOwnFaults (namesAfter [] clean) (dropped ++ [lexeme]) := by
    refine (hasOwnFaults_of_dropped reads.skipped).append ?_
    rw [opened]
    exact hasOwnFaults_singleton nested
  refine ⟨reads.sound.append owned faultless, by simp, rfl, ?_⟩
  rw [names, namesAfter_append, namesAfter_append, opened]
  rfl

/-- Taking lexemes leads to a fault, or through them all. -/
theorem takeAll {rest : List Lexeme} (reads : Reads builder seen clean dropped)
    (unended : ∀ lexeme ∈ rest, lexeme.construct ≠ .endOfText) :
    (∃ fault, (builder.takeAll true (readEventsFrom true seen rest)).2 = some fault ∧
        Refused (clean ++ (dropped ++ rest)) fault) ∨
      (builder.takeAll true (readEventsFrom true seen rest)).2 = none ∧
        ∃ known taken skipped, clean ++ (dropped ++ rest) = taken ++ skipped ∧
          Reads (builder.takeAll true (readEventsFrom true seen rest)).1 known taken skipped := by
  induction rest generalizing builder seen clean dropped with
  | nil => exact .inr ⟨rfl, seen, clean, dropped, by rw [List.append_nil], reads⟩
  | cons lexeme rest inductionHypothesis =>
      rw [List.forall_mem_cons] at unended
      have regroup : dropped ++ lexeme :: rest = dropped ++ [lexeme] ++ rest := by simp
      simp only [readEventsFrom, ↓reduceIte]
      cases found : lexeme.event? true with
      | none =>
          rw [regroup]
          dsimp only
          exact inductionHypothesis (reads.drop (Lexeme.dropped_of_event? found unended.1))
            unended.2
      | some event =>
          obtain ⟨nesting, names⟩ := TreeBuilder.take_eq_nestingFault? builder found
          rw [reads.names] at nesting names
          simp only [TreeBuilder.takeAll]
          cases refused : (builder.take true event).2 with
          | some cause =>
              -- The end tag is refused before the faults of what was dropped are looked at.
              rw [refused, Option.map_some] at nesting
              obtain ⟨name, ends⟩ := Lexeme.exists_endTag_of_nestingFault? nesting.symm unended.1
              exact .inl ⟨_, rfl, .nesting rfl reads.sound reads.skipped ends nesting.symm⟩
          | none =>
              rw [refused, Option.map_none] at nesting
              cases known : (seen <|> lexeme.allFaults.head?) with
              | some fault =>
                  rw [reads.head?_allFaults] at known
                  have split := congrArg (clean ++ ·) regroup
                  refine .inl ⟨fault, rfl, .own split reads.sound ?_ known⟩
                  refine (hasOwnFaults_of_dropped reads.skipped).append ?_
                  rw [namesAfter_of_dropped reads.skipped]
                  exact hasOwnFaults_singleton nesting.symm
              | none =>
                  have onward := inductionHypothesis
                    (reads.take known nesting.symm (names refused)) unended.2
                  rw [List.nil_append, List.append_assoc, ← regroup] at onward
                  exact onward

end Reads

/-! ## The end of a text -/

/-- The end of the text is the last lexeme, and no other. -/
theorem exists_readFrom_eq {mode : ReadingMode} (reads : mode ≠ .finished) (start : Nat)
    (text : List Char) :
    ∃ lexemes, Lexeme.readFrom mode start text =
        lexemes ++ [Lexeme.atEnd (start + byteSize text)] ∧
      ∀ lexeme ∈ lexemes, lexeme.construct ≠ .endOfText := by
  fun_induction Lexeme.readFrom mode start text with
  | case1 => contradiction
  | case2 start text name read inductionHypothesis =>
      obtain ⟨lexemes, same, unended⟩ := inductionHypothesis (by simp)
      have whole := congrArg byteSize (Lexeme.source_append_readRawContent start name text)
      rw [byteSize_append] at whole
      refine ⟨read.1 :: lexemes, ?_, List.forall_mem_cons.2 ⟨?_, unended⟩⟩
      · rw [same, List.cons_append, ← whole, ← Nat.add_assoc]
        rfl
      · simp only [read, Lexeme.readRawContent]
        split
        · simp
        · split <;> simp
  | case3 start => exact ⟨[], rfl, by simp⟩
  | case4 start first rest read inductionHypothesis =>
      have onward := Lexeme.nextMode_readMarkup start first rest
      obtain ⟨lexemes, same, unended⟩ := inductionHypothesis onward
      have whole := congrArg byteSize (Lexeme.source_append_readMarkup start first rest)
      rw [byteSize_append] at whole
      refine ⟨read.1 :: lexemes, ?_, List.forall_mem_cons.2 ⟨?_, unended⟩⟩
      · rw [same, List.cons_append, ← whole, ← Nat.add_assoc, Lexeme.stop,
          start_readMarkup start first rest]
      · intro isEnd
        rw [isEnd] at onward
        exact onward rfl

theorem readEventsFrom_concat_atEnd (strict : Bool) (seen : Option Fault)
    (lexemes : List Lexeme) (position : Nat) :
    readEventsFrom strict seen (lexemes ++ [Lexeme.atEnd position]) =
      readEventsFrom strict seen lexemes := by
  induction lexemes generalizing seen with
  | nil => rfl
  | cons lexeme lexemes inductionHypothesis =>
      simp only [List.cons_append, readEventsFrom, inductionHypothesis]

/-- What remains wrong behind lexemes that were all taken or dropped is the earliest fault. -/
theorem Reads.isEarliest_faultAtEnd {builder : TreeBuilder} {seen : Option Fault}
    {text : List Char} {taken skipped : List Lexeme} {fault : Fault}
    (reads : Reads builder seen taken skipped)
    (whole : Lexeme.readAll text = taken ++ (skipped ++ [Lexeme.atEnd (byteSize text)]))
    (left : builder.faultAtEnd? true text = some fault) :
    IsEarliest (Lexeme.readAll text) fault := by
  have ordered := inOrder_readFrom .markup 0 text
  rw [← Lexeme.readAll, whole] at ordered
  have owned : HasOwnFaults (namesAfter [] taken) skipped := hasOwnFaults_of_dropped reads.skipped
  have faultless : taken.flatMap Lexeme.allFaults = [] := by
    refine List.eq_nil_iff_forall_not_mem.2 fun cause member => ?_
    exact reads.sound _ _ (offence_of_mem member)
  have known : firstFault? true text = (skipped.flatMap Lexeme.allFaults).head? := by
    rw [firstFault?, if_pos rfl, whole, List.flatMap_append, List.flatMap_append, faultless]
    simp [Lexeme.atEnd, Lexeme.allFaults, Lexeme.attributeFault?]
  rw [TreeBuilder.faultAtEnd?, if_pos rfl, known, Option.orElse_eq_orElse,
    Option.orElse_eq_or] at left
  rw [whole]
  cases first : (skipped.flatMap Lexeme.allFaults).head? with
  | some found =>
      rw [first, Option.some_or, Option.some.injEq] at left
      rw [← left]
      exact isEarliest_of_own ordered reads.sound owned first
  | none =>
      rw [first, Option.none_or] at left
      obtain ⟨outermost, last, rfl⟩ := Option.map_eq_some_iff.1 left
      rw [← List.append_assoc]
      refine isEarliest_of_unclosed (reads.sound.append owned (List.head?_eq_none_iff.1 first)) ?_
      rw [namesAfter_append, namesAfter_of_dropped reads.skipped, ← reads.names,
        TreeBuilder.openNames, List.getLast?_map, last]
      rfl

/-- What strict reading reports is the earliest fault, or it was refused at an end tag. -/
theorem isEarliest_or_refused {document : Document} {markup : String} {fault : Fault}
    (refused : (document.parse true markup).fault? = some fault) :
    IsEarliest (Lexeme.readAll markup.toList) fault ∨
      Refused (Lexeme.readAll markup.toList) fault := by
  let start : TreeBuilder := { document := (document.create .fragment).1, root := document.size }
  have unfinished : ReadingMode.markup ≠ .finished := by simp
  obtain ⟨lexemes, whole, unended⟩ :=
    exists_readFrom_eq unfinished 0 markup.toList
  rw [Nat.zero_add, ← Lexeme.readAll] at whole
  have begun : Reads start none [] [] := ⟨fun _ _ offence => offence, by simp, rfl, rfl⟩
  have events : readEvents true markup.toList = readEventsFrom true none lexemes := by
    rw [readEvents, whole, readEventsFrom_concat_atEnd]
  have parsed : (document.parse true markup).fault? =
      ((start.takeAll true (readEvents true markup.toList)).2 <|>
        (start.takeAll true (readEvents true markup.toList)).1.faultAtEnd? true
          markup.toList) := rfl
  rw [parsed, events, Option.orElse_eq_orElse, Option.orElse_eq_or] at refused
  rcases begun.takeAll unended with ⟨early, stopped, reason⟩ |
    ⟨through, seen, taken, skipped, split, reads⟩
  · rw [stopped, Option.some_or, Option.some.injEq] at refused
    rw [← refused, whole]
    exact .inr (reason.append _)
  · rw [through, Option.none_or] at refused
    refine .inl (reads.isEarliest_faultAtEnd ?_ refused)
    rw [whole, ← List.append_assoc, ← split]
    rfl

namespace Document

/-- Strict reading reports the earliest fault, or that of an end tag out of place before which a
fault was dropped. -/
theorem fault_of_strict_reading {document : Document} {markup : String} {fault : Fault}
    (refused : (document.parse true markup).fault? = some fault) :
    IsEarliest (Lexeme.readAll markup.toList) fault ∨
      OutrunsDropped (Lexeme.readAll markup.toList) fault := by
  have ordered := inOrder_readFrom .markup 0 markup.toList
  rw [← Lexeme.readAll] at ordered
  rcases isEarliest_or_refused refused with earliest | reason
  · exact .inl earliest
  · cases reason with
    | own split sound owned first =>
        rw [split] at ordered ⊢
        exact .inl (isEarliest_of_own ordered sound owned first)
    | nesting split sound skipped ends found =>
        rw [split] at ordered ⊢
        exact isEarliest_or_outrunsDropped ordered sound skipped ends found

/-- A division that ends before the paragraph in it does. -/
theorem fault_of_mismatched_tag :
    let lexemes := Lexeme.readAll "<div><p>a</div>".toList
    let fault : Fault := ⟨15, .mismatchedEndTag "p" "div"⟩
    (Document.empty.parse true "<div><p>a</div>").fault? = some fault ∧
      (IsEarliest lexemes fault ∨ OutrunsDropped lexemes fault) := by
  intro lexemes fault
  have refused : (Document.empty.parse true "<div><p>a</div>").fault? = some fault := by
    decide +kernel
  exact ⟨refused, fault_of_strict_reading refused⟩

/-- An end tag without a name is dropped, and the one behind it is reported. -/
theorem fault_behind_nameless_tag :
    let lexemes := Lexeme.readAll "</></b>".toList
    let fault : Fault := ⟨7, .unexpectedEndTag "b"⟩
    (Document.empty.parse true "</></b>").fault? = some fault ∧ ¬ IsEarliest lexemes fault := by
  intro lexemes fault
  refine ⟨by decide +kernel, ?_⟩
  have read : lexemes =
      [⟨0, "</>".toList, .dropped, [⟨0, .invalidEndTag⟩]⟩,
        ⟨3, "</b>".toList, .endTag ['b'], []⟩, .atEnd 7] := by decide +kernel
  let missed : Fault := ⟨0, .invalidEndTag⟩
  have found : missed ∈ lexemes.flatMap Lexeme.allFaults := by decide +kernel
  have ordered : InOrder 0 lexemes := inOrder_readFrom .markup 0 "</></b>".toList
  rintro ⟨place, offence, least⟩
  have atStart : place ≤ 0 := least 0 missed (offence_of_mem found)
  rw [read] at ordered offence
  obtain ⟨_, _, behind⟩ := ordered
  rcases offence with nameless | later
  · cases nameless with
    | own found =>
        have same : fault = missed := List.mem_singleton.1 found
        contradiction
    | nesting found => contradiction
  · have further : 3 ≤ place := behind.le_of_offence later
    omega

end Document

end MarkupTemplate
