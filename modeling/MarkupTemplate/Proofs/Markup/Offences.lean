import MarkupTemplate.Proofs.Markup.Strictness

/-!
# What is wrong with a text

A text can be wrong in its lexemes, in the attributes of its tags, and in the nesting of the
elements.  Each fault belongs to a construct, and constructs stand in the order of their positions.
So of the faults behind constructs with nothing wrong, the first is the earliest of all, unless
others were dropped between.
-/

namespace MarkupTemplate

open MarkupTemplate.Text

/-! ## Faults and where they begin -/

/-- What is wrong with the end tag of an element where elements of these names are open, the
innermost first. -/
def nestingCause? (opened : List String) (name : String) : Option FaultCause :=
  match opened with
  | [] => some (.unexpectedEndTag name)
  | innermost :: outer =>
      if agreeIgnoringCase innermost.toList name.toList then none
      else if outer.any fun other => agreeIgnoringCase other.toList name.toList then
        some (.mismatchedEndTag innermost name)
      else some (.unexpectedEndTag name)

/-- The names that are open after a bracket.  Closing closes the nearest of its name, with all that
was opened after it. -/
def Bracket.leaves (opened : List String) : Bracket → List String
  | .opening name => name :: opened
  | .closing name =>
      match opened.dropWhile fun other => !agreeIgnoringCase other.toList name.toList with
      | [] => opened
      | _ :: outer => outer

namespace Lexeme

/-- The names that are open after a lexeme. -/
def leaves (opened : List String) (lexeme : Lexeme) : List String :=
  match lexeme.construct.bracket? with
  | some bracket => bracket.leaves opened
  | none => opened

/-- What is wrong with the nesting at a lexeme: with an end tag, or with what the end of the text
leaves open. -/
def nestingFault? (opened : List String) (lexeme : Lexeme) : Option Fault :=
  match lexeme.construct with
  | .endTag name =>
      (nestingCause? opened (String.ofList name)).map fun cause => ⟨lexeme.stop, cause⟩
  | .endOfText => opened.getLast?.map fun outermost => ⟨lexeme.start, .unclosedElement outermost⟩
  | _ => none

/-- The fault is one of the lexeme's, where elements of these names are open, and the construct that
it belongs to begins at the place.  A fault of the nesting belongs to the whole lexeme. -/
inductive Offends (opened : List String) (lexeme : Lexeme) : Nat → Fault → Prop
  | own {fault : Fault} (found : fault ∈ lexeme.allFaults) :
      Offends opened lexeme fault.position fault
  | nesting {fault : Fault} (found : lexeme.nestingFault? opened = some fault) :
      Offends opened lexeme lexeme.start fault

end Lexeme

/-- The names that are open after lexemes. -/
def namesAfter (opened : List String) (lexemes : List Lexeme) : List String :=
  lexemes.foldl Lexeme.leaves opened

/-- The fault is one in the lexemes, and the construct that it belongs to begins at the place. -/
def Offence (opened : List String) : List Lexeme → Nat → Fault → Prop
  | [], _, _ => False
  | lexeme :: rest, place, fault =>
      lexeme.Offends opened place fault ∨ Offence (lexeme.leaves opened) rest place fault

/-- Nothing is wrong with lexemes that a text begins with. -/
def AreSound (lexemes : List Lexeme) : Prop :=
  ∀ place fault, ¬ Offence [] lexemes place fault

/-- No construct that is at fault begins before the one that the fault belongs to. -/
def IsEarliest (lexemes : List Lexeme) (fault : Fault) : Prop :=
  ∃ place, Offence [] lexemes place fault ∧
    ∀ other cause, Offence [] lexemes other cause → place ≤ other

/-- The fault is that of an end tag that is out of place.  Constructs were dropped right before the
tag, one of them has the earliest fault, and nothing else is wrong before the tag. -/
def OutrunsDropped (lexemes : List Lexeme) (fault : Fault) : Prop :=
  ∃ clean dropped lexeme after missed,
    lexemes = clean ++ (dropped ++ lexeme :: after) ∧
      (∀ skipped ∈ dropped, skipped.construct = .dropped) ∧
      (∃ name, lexeme.construct = .endTag name) ∧
      lexeme.nestingFault? (namesAfter [] clean) = some fault ∧
      missed ∈ dropped.flatMap Lexeme.allFaults ∧ IsEarliest lexemes missed ∧
      ∀ other cause, Offence [] lexemes other cause → other < lexeme.start →
        cause ∈ dropped.flatMap Lexeme.allFaults

theorem namesAfter_append (opened : List String) (earlier later : List Lexeme) :
    namesAfter opened (earlier ++ later) = namesAfter (namesAfter opened earlier) later :=
  List.foldl_append

theorem offence_append {opened : List String} {earlier later : List Lexeme} {place : Nat}
    {fault : Fault} :
    Offence opened (earlier ++ later) place fault ↔
      Offence opened earlier place fault ∨
        Offence (namesAfter opened earlier) later place fault := by
  induction earlier generalizing opened with
  | nil => simp [Offence, namesAfter]
  | cons lexeme earlier inductionHypothesis =>
      rw [List.cons_append, Offence, Offence, inductionHypothesis, or_assoc]
      rfl

/-! ## Faults in the order of their positions -/

namespace Lexeme

/-- The faults of the lexeme lie within it, in order. -/
structure Ordered (lexeme : Lexeme) : Prop where
  within : ∀ fault ∈ lexeme.allFaults,
    lexeme.start ≤ fault.position ∧ fault.position ≤ lexeme.stop
  pairwise : lexeme.allFaults.Pairwise fun first second => first.position ≤ second.position

theorem start_le_stop (lexeme : Lexeme) : lexeme.start ≤ lexeme.stop :=
  Nat.le_add_right _ _

/-- Faults at the start of a lexeme are in order. -/
theorem Ordered.of_start {lexeme : Lexeme}
    (same : ∀ fault ∈ lexeme.faults, fault.position = lexeme.start) : lexeme.Ordered := by
  have all : ∀ fault ∈ lexeme.allFaults, fault.position = lexeme.start := by
    intro fault member
    rcases List.mem_append.1 member with own | written
    · exact same fault own
    · rw [Option.mem_toList, attributeFault?] at written
      split at written
      · obtain ⟨cause, _, rfl⟩ := Option.map_eq_some_iff.1 written
        rfl
      · obtain ⟨cause, _, rfl⟩ := Option.map_eq_some_iff.1 written
        rfl
      · contradiction
  refine ⟨fun fault member => ?_, ?_⟩
  · rw [all fault member]
    exact ⟨Nat.le_refl _, lexeme.start_le_stop⟩
  · refine List.pairwise_of_forall_mem_list fun first inFirst second inSecond => ?_
    rw [all first inFirst, all second inSecond]

theorem mem_bracketPositions {start position : Nat} {text : List Char}
    (member : position ∈ bracketPositions start text) :
    start ≤ position ∧ position ≤ start + byteSize text := by
  induction text generalizing start with
  | nil => simp [bracketPositions] at member
  | cons character rest inductionHypothesis =>
      rw [byteSize_cons]
      have further : position ∈ bracketPositions (start + character.utf8Size) rest →
          start ≤ position ∧ position ≤ start + (character.utf8Size + byteSize rest) := by
        intro later
        have bounds := inductionHypothesis later
        omega
      rw [bracketPositions] at member
      split at member
      · rcases List.mem_cons.1 member with rfl | later
        · omega
        · exact further later
      · exact further member

theorem pairwise_bracketPositions (start : Nat) (text : List Char) :
    (bracketPositions start text).Pairwise (· ≤ ·) := by
  induction text generalizing start with
  | nil => exact .nil
  | cons character rest inductionHypothesis =>
      rw [bracketPositions]
      split
      · refine .cons (fun later member => ?_) (inductionHypothesis _)
        have bounds := mem_bracketPositions member
        omega
      · exact inductionHypothesis _

theorem ordered_readText (start : Nat) (first : Char) (rest : List Char) :
    (readText start first rest).1.Ordered := by
  have faults : (readText start first rest).1.allFaults =
      (readText start first rest).1.faults := by
    simp [allFaults, attributeFault?, readText]
  constructor
  · intro fault member
    rw [faults] at member
    obtain ⟨position, inSource, rfl⟩ := List.mem_map.1 member
    exact mem_bracketPositions inSource
  · rw [faults]
    exact List.pairwise_map.2 (pairwise_bracketPositions _ _)

theorem ordered_readMarkup (start : Nat) (first : Char) (rest : List Char) :
    (readMarkup start first rest).1.Ordered := by
  unfold readMarkup
  split
  · exact ordered_readText start first rest
  · split
    · refine .of_start ?_
      unfold readComment
      split <;> simp
    · refine .of_start ?_
      unfold readDeclaration
      split <;> simp
    · refine .of_start ?_
      unfold readDeclaration
      split <;> simp
    · refine .of_start ?_
      unfold readEndTag
      simp only
      split <;> (split <;> simp)
    · split
      · refine .of_start ?_
        unfold readStartTag
        split <;> simp
      · exact ordered_readText start first _

theorem ordered_readRawContent (start : Nat) (name text : List Char) :
    (readRawContent start name text).1.Ordered := by
  refine .of_start ?_
  unfold readRawContent
  split <;> simp

theorem ordered_atEnd (position : Nat) : (atEnd position).Ordered :=
  .of_start (by simp [atEnd])

end Lexeme

/-- The lexemes follow one another from the position on, with their faults in order. -/
def InOrder : Nat → List Lexeme → Prop
  | _, [] => True
  | position, lexeme :: rest =>
      lexeme.start = position ∧ lexeme.Ordered ∧ InOrder lexeme.stop rest

theorem start_readMarkup (start : Nat) (first : Char) (rest : List Char) :
    (Lexeme.readMarkup start first rest).1.start = start := by
  unfold Lexeme.readMarkup
  split
  · rfl
  · split
    · unfold Lexeme.readComment
      split <;> rfl
    · unfold Lexeme.readDeclaration
      split <;> rfl
    · unfold Lexeme.readDeclaration
      split <;> rfl
    · unfold Lexeme.readEndTag
      simp only
      split <;> rfl
    · split
      · unfold Lexeme.readStartTag
        split <;> rfl
      · rfl

theorem inOrder_readFrom (mode : ReadingMode) (start : Nat) (text : List Char) :
    InOrder start (Lexeme.readFrom mode start text) := by
  fun_induction Lexeme.readFrom mode start text with
  | case1 => trivial
  | case2 start text name read inductionHypothesis =>
      exact ⟨rfl, Lexeme.ordered_readRawContent start name text, inductionHypothesis⟩
  | case3 start => exact ⟨rfl, Lexeme.ordered_atEnd start, trivial⟩
  | case4 start first rest read inductionHypothesis =>
      exact ⟨start_readMarkup start first rest, Lexeme.ordered_readMarkup start first rest,
        inductionHypothesis⟩

section Positions

variable {start place : Nat} {opened : List String} {lexemes earlier later : List Lexeme}
  {fault : Fault}

/-- A construct at fault begins where the lexemes begin, or after that. -/
theorem InOrder.le_of_offence (ordered : InOrder start lexemes)
    (offence : Offence opened lexemes place fault) : start ≤ place := by
  induction lexemes generalizing start opened with
  | nil => exact offence.elim
  | cons lexeme rest inductionHypothesis =>
      obtain ⟨rfl, own, onward⟩ := ordered
      rcases offence with here | later
      · cases here with
        | own found => exact (own.within _ found).1
        | nesting found => exact Nat.le_refl _
      · exact Nat.le_trans lexeme.start_le_stop (inductionHypothesis onward later)

theorem InOrder.exists_middle (ordered : InOrder start (earlier ++ later)) :
    ∃ middle, start ≤ middle ∧ InOrder middle later ∧
      (∀ fault ∈ earlier.flatMap Lexeme.allFaults,
        start ≤ fault.position ∧ fault.position ≤ middle) ∧
      (earlier.flatMap Lexeme.allFaults).Pairwise fun first second =>
        first.position ≤ second.position := by
  induction earlier generalizing start with
  | nil => exact ⟨start, Nat.le_refl _, ordered, by simp, .nil⟩
  | cons lexeme earlier inductionHypothesis =>
      obtain ⟨rfl, own, onward⟩ := ordered
      obtain ⟨middle, reaches, rest, bounds, pairwise⟩ := inductionHypothesis onward
      have passed := lexeme.start_le_stop
      refine ⟨middle, Nat.le_trans passed reaches, rest, ?_, ?_⟩
      · intro fault member
        rw [List.flatMap_cons, List.mem_append] at member
        rcases member with here | further
        · have within := own.within fault here
          omega
        · have within := bounds fault further
          omega
      · rw [List.flatMap_cons, List.pairwise_append]
        refine ⟨own.pairwise, pairwise, fun first here second further => ?_⟩
        exact Nat.le_trans (own.within first here).2 (bounds second further).1

theorem offence_of_mem (member : fault ∈ lexemes.flatMap Lexeme.allFaults) :
    Offence opened lexemes fault.position fault := by
  induction lexemes generalizing opened with
  | nil => simp at member
  | cons lexeme rest inductionHypothesis =>
      rw [List.flatMap_cons, List.mem_append] at member
      rcases member with own | further
      · exact .inl (.own own)
      · exact .inr (inductionHypothesis further)

end Positions

/-! ## Dropped constructs -/

section Dropped

variable {place : Nat} {opened : List String} {lexeme : Lexeme} {dropped : List Lexeme}
  {fault : Fault}

/-- All that is wrong with lexemes are their own faults. -/
def HasOwnFaults (opened : List String) (lexemes : List Lexeme) : Prop :=
  ∀ place fault, Offence opened lexemes place fault →
    fault ∈ lexemes.flatMap Lexeme.allFaults ∧ place = fault.position

theorem leaves_of_dropped (skipped : lexeme.construct = .dropped) :
    lexeme.leaves opened = opened := by
  simp [Lexeme.leaves, skipped, Construct.bracket?]

theorem namesAfter_of_dropped (skipped : ∀ lexeme ∈ dropped, lexeme.construct = .dropped) :
    namesAfter opened dropped = opened := by
  induction dropped with
  | nil => rfl
  | cons lexeme rest inductionHypothesis =>
      rw [List.forall_mem_cons] at skipped
      rw [namesAfter, List.foldl_cons, leaves_of_dropped skipped.1]
      exact inductionHypothesis skipped.2

theorem hasOwnFaults_singleton (nested : lexeme.nestingFault? opened = none) :
    HasOwnFaults opened [lexeme] := by
  intro place fault offence
  rcases offence with own | nothing
  · cases own with
    | own found => exact ⟨by simpa using found, rfl⟩
    | nesting found =>
        rw [nested] at found
        contradiction
  · exact nothing.elim

theorem HasOwnFaults.append {earlier later : List Lexeme} (first : HasOwnFaults opened earlier)
    (second : HasOwnFaults (namesAfter opened earlier) later) :
    HasOwnFaults opened (earlier ++ later) := by
  intro place fault offence
  rw [List.flatMap_append, List.mem_append]
  rcases offence_append.1 offence with before | after
  · exact ⟨.inl (first _ _ before).1, (first _ _ before).2⟩
  · exact ⟨.inr (second _ _ after).1, (second _ _ after).2⟩

theorem hasOwnFaults_of_dropped (skipped : ∀ lexeme ∈ dropped, lexeme.construct = .dropped) :
    HasOwnFaults opened dropped := by
  induction dropped with
  | nil => exact fun _ _ offence => offence.elim
  | cons lexeme rest inductionHypothesis =>
      rw [List.forall_mem_cons] at skipped
      refine (hasOwnFaults_singleton ?_).append ?_
      · simp [Lexeme.nestingFault?, skipped.1]
      · rw [namesAfter_of_dropped (List.forall_mem_singleton.2 skipped.1)]
        exact inductionHypothesis skipped.2

/-- Nothing is wrong with further lexemes if they have no faults of their own, and could have no
others. -/
theorem AreSound.append {clean later : List Lexeme} (sound : AreSound clean)
    (owned : HasOwnFaults (namesAfter [] clean) later)
    (faultless : later.flatMap Lexeme.allFaults = []) : AreSound (clean ++ later) := by
  intro place cause offence
  rcases offence_append.1 offence with before | after
  · exact sound place cause before
  · have member := (owned place cause after).1
    rw [faultless] at member
    contradiction

end Dropped

/-! ## How a fault comes to be reported -/

/-- A fault is found in lexemes: the first own fault of those behind lexemes with nothing wrong, or
the fault of an end tag that is out of place, behind such lexemes and others that were dropped. -/
inductive Refused (lexemes : List Lexeme) (fault : Fault) : Prop
  | own {clean faulty after : List Lexeme} (split : lexemes = clean ++ (faulty ++ after))
      (sound : AreSound clean)
      (owned : HasOwnFaults (namesAfter [] clean) faulty)
      (first : (faulty.flatMap Lexeme.allFaults).head? = some fault)
  | nesting {clean dropped after : List Lexeme} {lexeme : Lexeme} {name : List Char}
      (split : lexemes = clean ++ (dropped ++ lexeme :: after))
      (sound : AreSound clean)
      (skipped : ∀ lexeme ∈ dropped, lexeme.construct = .dropped)
      (ends : lexeme.construct = .endTag name)
      (found : lexeme.nestingFault? (namesAfter [] clean) = some fault)

/-- More lexemes do not change what was found. -/
theorem Refused.append {lexemes : List Lexeme} {fault : Fault} (refused : Refused lexemes fault)
    (more : List Lexeme) : Refused (lexemes ++ more) fault := by
  cases refused with
  | @own clean faulty after split sound owned first =>
      have longer : lexemes ++ more = clean ++ (faulty ++ (after ++ more)) := by
        rw [split, List.append_assoc, List.append_assoc]
      exact .own longer sound owned first
  | @nesting clean dropped after lexeme _ split sound skipped ends found =>
      have longer : lexemes ++ more = clean ++ (dropped ++ lexeme :: (after ++ more)) := by
        rw [split, List.append_assoc, List.append_assoc, List.cons_append]
      exact .nesting longer sound skipped ends found

section Earliest

variable {clean faulty after : List Lexeme} {fault : Fault}

theorem isEarliest_of_own (ordered : InOrder 0 (clean ++ (faulty ++ after)))
    (sound : AreSound clean)
    (owned : HasOwnFaults (namesAfter [] clean) faulty)
    (first : (faulty.flatMap Lexeme.allFaults).head? = some fault) :
    IsEarliest (clean ++ (faulty ++ after)) fault := by
  obtain ⟨_, _, onward, _, _⟩ := ordered.exists_middle
  obtain ⟨middle, _, rest, bounds, pairwise⟩ := onward.exists_middle
  obtain ⟨others, shape⟩ := List.head?_eq_some_iff.1 first
  have member : fault ∈ faulty.flatMap Lexeme.allFaults := by
    rw [shape]
    exact List.mem_cons_self
  -- Nothing is wrong before the faulty lexemes, their faults are in order, and all that follows
  -- begins later.
  refine ⟨fault.position,
    offence_append.2 (.inr (offence_append.2 (.inl (offence_of_mem member)))), ?_⟩
  intro other cause offence
  rcases offence_append.1 offence with before | offence
  · exact absurd before (sound other cause)
  · rcases offence_append.1 offence with here | behind
    · obtain ⟨inFaulty, rfl⟩ := owned other cause here
      rw [shape] at inFaulty pairwise
      rcases List.mem_cons.1 inFaulty with rfl | later
      · exact Nat.le_refl _
      · exact (List.pairwise_cons.1 pairwise).1 cause later
    · exact Nat.le_trans (bounds fault member).2 (rest.le_of_offence behind)

/-- Nothing is wrong but what is left open at the end. -/
theorem isEarliest_of_unclosed {position : Nat} {outermost : String}
    (sound : AreSound clean)
    (unclosed : (namesAfter [] clean).getLast? = some outermost) :
    IsEarliest (clean ++ [Lexeme.atEnd position]) ⟨position, .unclosedElement outermost⟩ := by
  refine ⟨position, offence_append.2 (.inr (.inl (.nesting ?_))), ?_⟩
  · simp [Lexeme.nestingFault?, Lexeme.atEnd, unclosed]
  · intro other cause offence
    rcases offence_append.1 offence with before | here
    · exact absurd before (sound other cause)
    · have alone : InOrder position [Lexeme.atEnd position] :=
        ⟨rfl, Lexeme.ordered_atEnd position, trivial⟩
      exact alone.le_of_offence here

/-- The end tag has the earliest fault, unless one of the constructs that were dropped before it
has. -/
theorem isEarliest_or_outrunsDropped {dropped : List Lexeme} {lexeme : Lexeme} {name : List Char}
    (ordered : InOrder 0 (clean ++ (dropped ++ lexeme :: after)))
    (sound : AreSound clean)
    (skipped : ∀ lexeme ∈ dropped, lexeme.construct = .dropped)
    (ends : lexeme.construct = .endTag name)
    (found : lexeme.nestingFault? (namesAfter [] clean) = some fault) :
    IsEarliest (clean ++ (dropped ++ lexeme :: after)) fault ∨
      OutrunsDropped (clean ++ (dropped ++ lexeme :: after)) fault := by
  have owned : HasOwnFaults (namesAfter [] clean) dropped := hasOwnFaults_of_dropped skipped
  obtain ⟨_, _, onward, _, _⟩ := ordered.exists_middle
  obtain ⟨middle, _, rest, _, _⟩ := onward.exists_middle
  have begins := rest.1
  have before_tag : ∀ other cause, Offence [] (clean ++ (dropped ++ lexeme :: after)) other cause →
      cause ∈ dropped.flatMap Lexeme.allFaults ∨ lexeme.start ≤ other := by
    intro other cause offence
    rcases offence_append.1 offence with before | offence
    · exact absurd before (sound other cause)
    · rcases offence_append.1 offence with here | behind
      · exact .inl (owned other cause here).1
      · rw [begins]
        exact .inr (rest.le_of_offence behind)
  cases first : (dropped.flatMap Lexeme.allFaults).head? with
  | none =>
      rw [List.head?_eq_none_iff] at first
      refine .inl ⟨lexeme.start, ?_, fun other cause offence => ?_⟩
      · rw [offence_append, offence_append, namesAfter_of_dropped skipped]
        exact .inr (.inr (.inl (.nesting found)))
      · rcases before_tag other cause offence with inDropped | later
        · rw [first] at inDropped
          contradiction
        · exact later
  | some missed =>
      refine .inr ⟨clean, dropped, lexeme, after, missed, rfl, skipped, ⟨name, ends⟩, found,
        List.mem_of_head? first, isEarliest_of_own ordered sound owned first, ?_⟩
      intro other cause offence earlier
      exact (before_tag other cause offence).resolve_right (Nat.not_le.2 earlier)

end Earliest

end MarkupTemplate
