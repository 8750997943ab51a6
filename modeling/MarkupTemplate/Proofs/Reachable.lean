import MarkupTemplate.Proofs.Template.WellFormed

/-!
# Reachable documents

A document is reachable if a caller can arrive at it from the empty document by operations on
documents and templates.  Callers may name any nodes they like, existing or not, and an operation
that is refused counts as well; but a tree can only be copied from a document that is reachable
itself, and only a template that was compiled can be instantiated.  Every reachable document is an
ordered forest.
-/

namespace MarkupTemplate

open Relation

/-! ## Operations -/

/-- What a caller may do with a document. -/
inductive Operation where
  | createElement (name : String)
  | createText (data : String)
  | createFragment
  | createBoundary
  | parse (strict : Bool) (markup : String)
  | copyFrom (source : Document) (id : NodeId)
  | append (parent id : NodeId)
  | insertBefore (reference id : NodeId)
  | insertAfter (reference id : NodeId)
  | detach (id : NodeId)
  | splitText (id : NodeId) (position : Nat)
  | setData (id : NodeId) (data : String)
  | setAttribute (id : NodeId) (name value : String)
  | eraseAttribute (id : NodeId) (name : String)
  | update (anchor : Anchor) (value : Value)
  | instantiate (template : Template) (values : List Value)
  | mount (made : Instance) (parent : NodeId)

namespace Operation

def source? : Operation → Option Document
  | .copyFrom source _ => some source
  | _ => none

def template? : Operation → Option Template
  | .instantiate template _ => some template
  | _ => none

end Operation

namespace Document

/-- The document after an edit, which is the old one if the edit was refused. -/
def afterEdit (document : Document) (edit : Except Error Document) : Document :=
  edit.toOption.getD document

/-- The document after an operation. -/
def perform (document : Document) : Operation → Document
  | .createElement name => (document.create (.element name [])).1
  | .createText data => (document.create (.text data)).1
  | .createFragment => (document.create .fragment).1
  | .createBoundary => (document.create .boundary).1
  | .parse strict markup => (document.parse strict markup).document
  | .copyFrom source id => document.afterEdit ((document.copyFrom source id).map Prod.fst)
  | .append parent id => document.afterEdit (document.append parent id)
  | .insertBefore reference id => document.afterEdit (document.insertBefore reference id)
  | .insertAfter reference id => document.afterEdit (document.insertAfter reference id)
  | .detach id => document.detach id
  | .splitText id position => document.afterEdit ((document.splitText id position).map Prod.fst)
  | .setData id data => document.afterEdit (document.setData id data)
  | .setAttribute id name value => document.afterEdit (document.setAttribute id name value)
  | .eraseAttribute id name => document.eraseAttribute id name
  | .update anchor value => (Anchor.update document anchor value).document
  | .instantiate template values => (Instance.create document template values).document
  | .mount made parent => document.afterEdit ((Instance.mount document made parent).map Prod.fst)

/-- Operations lead to the document from the empty one. -/
inductive Reachable : Document → Prop where
  | empty : Reachable .empty
  | perform {document : Document} {operation : Operation} (reachable : Reachable document)
      (sources : ∀ source, operation.source? = some source → Reachable source)
      (templates : ∀ template, operation.template? = some template →
        ∃ options fragments, Template.compile options fragments = .ok template) :
      Reachable (document.perform operation)

/-! ## Ordered forests -/

/-- The nodes of the document form ordered trees, and every link says so. -/
structure IsOrderedForest (document : Document) : Prop where
  /-- Links lead to nodes of the document. -/
  present : ∀ id other, document.parent? id = some other ∨ document.firstChild? id = some other ∨
    document.lastChild? id = some other ∨ document.prevSibling? id = some other ∨
    document.nextSibling? id = some other → (document.node? other).isSome
  /-- From the first child on, a node's children are found, each of them once. -/
  forward : ∀ id, (document.children id).Nodup ∧
    ∀ child, child ∈ document.children id ↔ document.parent? child = some id
  /-- From the last child back, they are found in reverse. -/
  backward : ∀ id, document.chain document.prevSibling? (document.lastChild? id) =
    (document.children id).reverse
  alone : ∀ id, document.parent? id = none →
    document.prevSibling? id = none ∧ document.nextSibling? id = none
  acyclic : ∀ id, ¬ TransGen (fun lower upper => document.parent? lower = some upper) id id
  containers : ∀ id content, document.content? id = some content → document.children id ≠ [] →
    content = .fragment ∨ ∃ name attributes, content = .element name attributes
  fragments : ∀ id, document.content? id = some .fragment → document.parent? id = none
  attributes : ∀ id content, document.content? id = some content →
    (content.attributes ≠ [] → content.name?.isSome) ∧
      (content.attributes.map Attribute.name).Nodup

theorem WellFormed.isOrderedForest {document : Document} (wellFormed : document.WellFormed) :
    document.IsOrderedForest := by
  have arranged := wellFormed.arranged
  constructor
  · intro id other linked
    exact node?_isSome_iff.2 (arranged.lt_size_of_linked linked)
  · exact fun id => ⟨arranged.nodup id, fun child => arranged.parent?_eq_some_iff.symm⟩
  · exact arranged.chain_prevSibling?_eq
  · intro id orphan
    exact (arranged.orphan fun parent member => by
      rw [arranged.parent?_eq_some_iff.2 member] at orphan
      contradiction).2
  · exact wellFormed.acyclic
  · intro id content present nonempty
    have may := wellFormed.container present nonempty
    cases content with
    | fragment => exact Or.inl rfl
    | element name attributes => exact Or.inr ⟨name, attributes, rfl⟩
    | _ => contradiction
  · exact fun id => wellFormed.fragment
  · intro id content present
    refine ⟨fun some_attribute => ?_, wellFormed.distinct present⟩
    cases content with
    | element name attributes => rfl
    | _ => exact absurd rfl some_attribute

/-! ## Runs -/

theorem WellFormed.afterEdit {document : Document} (wellFormed : document.WellFormed)
    {edit : Except Error Document}
    (edited : ∀ {after}, edit = .ok after → after.WellFormed) :
    (document.afterEdit edit).WellFormed := by
  cases edit with
  | error cause => exact wellFormed
  | ok after => exact edited rfl

/-- Every operation keeps a document well formed. -/
theorem WellFormed.perform {document : Document} (wellFormed : document.WellFormed)
    {operation : Operation}
    (sources : ∀ source, operation.source? = some source → source.WellFormed)
    (templates : ∀ template, operation.template? = some template →
      ∃ options fragments, Template.compile options fragments = .ok template) :
    (document.perform operation).WellFormed := by
  have plain : ∀ {content : Content}, content.attributes = [] →
      (document.create content).1.WellFormed := fun none =>
    wellFormed.create (Content.hasDistinctNames_of_attributes_eq_nil none)
  cases operation with
  | createElement name => exact plain rfl
  | createText data => exact plain rfl
  | createFragment => exact plain rfl
  | createBoundary => exact plain rfl
  | parse strict markup => exact (wellFormed.copiedIn_parse strict markup).wellFormed
  | copyFrom source id =>
      refine wellFormed.afterEdit ?_
      intro after made
      cases copied : document.copyFrom source id with
      | error cause =>
          rw [copied] at made
          contradiction
      | ok copy =>
          rw [copied] at made
          rw [← Except.ok.inj made]
          obtain ⟨_, _, _, copiedIn⟩ :=
            copiedIn_of_copyFrom wellFormed (sources source rfl) copied
          exact copiedIn.wellFormed
  | append parent id => exact wellFormed.afterEdit wellFormed.append
  | insertBefore reference id => exact wellFormed.afterEdit wellFormed.insertBefore
  | insertAfter reference id => exact wellFormed.afterEdit wellFormed.insertAfter
  | detach id => exact wellFormed.detach id
  | splitText id position =>
      refine wellFormed.afterEdit ?_
      intro after made
      cases divided : document.splitText id position with
      | error cause =>
          rw [divided] at made
          contradiction
      | ok halves =>
          rw [divided] at made
          rw [← Except.ok.inj made]
          exact wellFormed.splitText divided
  | setData id data => exact wellFormed.afterEdit wellFormed.setData
  | setAttribute id name value => exact wellFormed.afterEdit wellFormed.setAttribute
  | eraseAttribute id name => exact wellFormed.eraseAttribute id name
  | update anchor value => exact Anchor.wellFormed_update wellFormed anchor value
  | instantiate template values =>
      obtain ⟨options, fragments, compiled⟩ := templates template rfl
      exact Instance.wellFormed_create wellFormed (Template.wellFormed_compile compiled) values
  | mount made parent =>
      refine wellFormed.afterEdit ?_
      intro after done
      cases mounted : Instance.mount document made parent with
      | error cause =>
          rw [mounted] at done
          contradiction
      | ok result =>
          rw [mounted] at done
          rw [← Except.ok.inj done]
          exact Instance.wellFormed_mount wellFormed mounted

theorem Reachable.wellFormed {document : Document} (reachable : document.Reachable) :
    document.WellFormed := by
  induction reachable with
  | empty => exact wellFormed_empty
  | perform reachable sources templates inductionHypothesis sourcesHypothesis =>
      exact inductionHypothesis.perform sourcesHypothesis templates

/-- Operations that need neither another document nor a template lead on. -/
theorem Reachable.onward {document : Document} (reachable : document.Reachable)
    {operation : Operation} (noSource : operation.source? = none)
    (noTemplate : operation.template? = none) : (document.perform operation).Reachable := by
  refine .perform reachable ?_ ?_
  · simp [noSource]
  · simp [noTemplate]

/-- Whatever operations lead to a document, its nodes form ordered trees. -/
theorem isOrderedForest_of_reachable {document : Document} (reachable : document.Reachable) :
    document.IsOrderedForest :=
  reachable.wellFormed.isOrderedForest

/-- A fragment whose child was inserted before itself and then above its own parent. -/
theorem isOrderedForest_after_insertions :
    let filled := ((Document.empty.perform .createFragment).perform
      (.createElement "p")).perform (.append 0 1)
    let edited := ((filled.perform (.insertBefore 1 1)).perform (.append 1 0))
    edited.children 0 = [1] ∧ edited.IsOrderedForest := by
  intro filled edited
  have onward : ∀ {document : Document} {operation : Operation}, document.Reachable →
      operation.source? = none → operation.template? = none →
        (document.perform operation).Reachable := by
    intro document operation reachable noSource noTemplate
    refine .perform reachable ?_ ?_
    · simp [noSource]
    · simp [noTemplate]
  refine ⟨by decide, isOrderedForest_of_reachable ?_⟩
  exact onward (onward (onward (onward (onward .empty rfl rfl) rfl rfl) rfl rfl) rfl rfl) rfl rfl

end Document

end MarkupTemplate
