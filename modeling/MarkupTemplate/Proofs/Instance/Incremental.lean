import MarkupTemplate.Proofs.Instance.Creation
import MarkupTemplate.Proofs.Instance.Showing
import MarkupTemplate.Proofs.Template.Instantiating

/-!
# Updating and rendering afresh

An instance whose slots were bound to texts and absent values again and again is written like a new
instance with the values that were bound last.  Only the order of the attributes in a start tag can
tell the two apart, since an attribute that was taken away comes back at the end.
-/

namespace MarkupTemplate

open Document Template

/-! ## Markup up to the order of attributes -/

/-- The markup is the same, but for the order of the attributes inside of start tags. -/
inductive SameButAttributeOrder : List Char → List Char → Prop
  | same (text : List Char) : SameButAttributeOrder text text
  | startTag (name : String) {left right : List Attribute} (perm : left.Perm right) :
      SameButAttributeOrder (startTagMarkup name left) (startTagMarkup name right)
  | append {first second third fourth : List Char} (left : SameButAttributeOrder first second)
      (right : SameButAttributeOrder third fourth) :
      SameButAttributeOrder (first ++ third) (second ++ fourth)

theorem Forest.Reorders.markup {first second : Forest Content} (reorders : first.Reorders second)
    (verbatim : Bool) : SameButAttributeOrder (first.markup verbatim) (second.markup verbatim) := by
  induction reorders generalizing verbatim with
  | empty => exact .same _
  | @element name left right children others siblings following perm _ _ inside beside =>
      simp only [Forest.markup]
      refine .append (.append (.startTag name perm) ?_) (beside verbatim)
      split
      · exact .same _
      · exact .append (inside _) (.same _)
  | @plant content children others siblings following _ _ inside beside =>
      simp only [Forest.markup]
      refine .append ?_ (beside verbatim)
      cases content with
      | fragment => exact inside false
      | element name attributes =>
          refine .append (.same _) ?_
          split
          · exact .same _
          · exact .append (inside _) (.same _)
      | _ => exact .same _

/-! ## Runs of updates -/

namespace Instance

/-- Updates of slots, which are given by their numbers, as bindings of anchors. -/
def bindings (anchors : List Anchor) (updates : List (Nat × Value)) : List (Anchor × Value) :=
  updates.filterMap fun update => anchors[update.1]?.map fun anchor => (anchor, update.2)

/-- The values that were bound last, of which those not updated are the first ones. -/
def lastValues (values : List Value) (updates : List (Nat × Value)) : List Value :=
  updates.foldl (fun last update => last.set update.1 update.2) values

theorem length_lastValues (values : List Value) (updates : List (Nat × Value)) :
    (lastValues values updates).length = values.length := by
  unfold lastValues
  induction updates generalizing values with
  | nil => rfl
  | cons first rest inductionHypothesis =>
      rw [List.foldl_cons, inductionHypothesis, List.length_set]

theorem mem_lastValues {values : List Value} {updates : List (Nat × Value)} {value : Value}
    (member : value ∈ lastValues values updates) :
    value ∈ values ∨ ∃ update ∈ updates, update.2 = value := by
  unfold lastValues at member
  induction updates generalizing values with
  | nil => exact Or.inl member
  | cons first rest inductionHypothesis =>
      rcases inductionHypothesis member with before | ⟨update, later, same⟩
      · rcases List.mem_or_eq_of_mem_set before with old | rfl
        · exact Or.inl old
        · exact Or.inr ⟨first, List.mem_cons_self, rfl⟩
      · exact Or.inr ⟨update, List.mem_cons_of_mem _ later, same⟩

/-- Values that were bound to all slots in order are the last ones. -/
theorem lastValues_range' (done old : List Value) {new : List Value}
    (length : old.length = new.length) :
    lastValues (done ++ old) ((List.range' done.length old.length).zip new) = done ++ new := by
  induction old generalizing done new with
  | nil =>
      rw [List.eq_nil_of_length_eq_zero length.symm]
      rfl
  | cons first rest inductionHypothesis =>
      cases new with
      | nil => simp at length
      | cons value others =>
          have onward := inductionHypothesis (done ++ [value]) (Nat.succ.inj length)
          rw [List.length_append, List.length_singleton, List.append_assoc, List.append_assoc]
            at onward
          rw [List.length_cons, List.range'_succ, List.zip_cons_cons]
          unfold lastValues at onward ⊢
          rw [List.foldl_cons, List.set_append_right _ _ (Nat.le_refl _), Nat.sub_self,
            List.set_cons_zero]
          exact onward

theorem bindings_range' (done todo : List Anchor) (values : List Value) :
    bindings (done ++ todo) ((List.range' done.length todo.length).zip values) =
      todo.zip values := by
  induction todo generalizing done values with
  | nil => rfl
  | cons first rest inductionHypothesis =>
      cases values with
      | nil => simp [bindings]
      | cons value others =>
          have onward := inductionHypothesis (done ++ [first]) others
          rw [List.length_append, List.length_singleton, List.append_assoc] at onward
          rw [List.length_cons, List.range'_succ, List.zip_cons_cons]
          unfold bindings at onward ⊢
          rw [List.filterMap_cons_some (b := (first, value)) (by simp), List.zip_cons_cons]
          exact congrArg _ onward

theorem set_map_eq_map_update {bound : Site → Value} {sites : List Site} (nodup : sites.Nodup)
    {index : Nat} (within : index < sites.length) (value : Value) :
    (sites.map bound).set index value =
      sites.map (Function.update bound sites[index] value) := by
  refine List.ext_getElem (by simp) fun other inSet inMap => ?_
  rw [List.getElem_set, List.getElem_map, List.getElem_map]
  split
  · rename_i same
    subst same
    rw [Function.update_self]
  · rename_i different
    rw [Function.update_of_ne fun same => different (nodup.getElem_inj_iff.1 same).symm]

variable {base copied document : Document} {template : Template} {marker : String}
  {block : Forest (NodeId × Content)} {copy : CopyOf base template marker copied block}
  {bound : Site → Value} {held : NodeId → List NodeId}

/-- After any updates with texts and absent values, an instance shows the values bound last. -/
theorem Shows.bindAll (shows : Shows copy bound held document) {updates : List (Nat × Value)}
    (plain : ∀ update ∈ updates, ∀ id, update.2 ≠ .node id) :
    ∃ rebound reheld,
      (bindAll document (bindings (anchorsOf marker none block) updates)).outcome = .ok () ∧
      Shows copy rebound reheld
        (bindAll document (bindings (anchorsOf marker none block) updates)).document ∧
      (sites marker block).map rebound =
        lastValues ((sites marker block).map bound) updates := by
  induction updates generalizing document bound held with
  | nil => exact ⟨bound, held, rfl, shows, rfl⟩
  | cons first rest inductionHypothesis =>
      obtain ⟨index, value⟩ := first
      rw [List.forall_mem_cons] at plain
      have length := shows.serves.length_eq
      by_cases within : index < (anchorsOf marker none block).length
      · have serves := shows.serves.get (i := index) (by omega) within
        rw [List.get_eq_getElem, List.get_eq_getElem] at serves
        obtain ⟨reheld, outcome, onward⟩ :=
          shows.update (List.getElem_mem _) serves plain.1
        obtain ⟨rebound, finally_, done, showsLast, last⟩ := inductionHypothesis onward plain.2
        rw [← set_map_eq_map_update (nodup_sites marker copy.stands)] at last
        have shape : bindings (anchorsOf marker none block) ((index, value) :: rest) =
            ((anchorsOf marker none block)[index], value) ::
              bindings (anchorsOf marker none block) rest :=
          List.filterMap_cons_some (by simp [within])
        rw [shape, Instance.bindAll, Attempt.andThen, outcome]
        exact ⟨rebound, finally_, done, showsLast, last⟩
      · have shape : bindings (anchorsOf marker none block) ((index, value) :: rest) =
            bindings (anchorsOf marker none block) rest :=
          List.filterMap_cons_none (by simp [Nat.le_of_not_lt within])
        obtain ⟨rebound, reheld, done, showsLast, last⟩ := inductionHypothesis shows plain.2
        rw [shape]
        refine ⟨rebound, reheld, done, showsLast, ?_⟩
        rw [last, lastValues, lastValues, List.foldl_cons, List.set_eq_of_length_le]
        simp only [List.length_map]
        omega

theorem CopyOf.length_anchors (copy : CopyOf base template marker copied block) :
    (anchorsOf marker none block).length = template.slots.length :=
  length_of_mapM_eq_ok copy.anchors

/-- A new instance shows the values that it was created with. -/
theorem CopyOf.exists_shows (copy : CopyOf base template marker copied block)
    (copyMade : base.copyFrom template.document template.root = .ok (copied, base.size))
    {values : List Value} (count : values.length = template.slots.length)
    (plain : ∀ value ∈ values, ∀ id, value ≠ .node id) :
    ∃ bound held, (create base template values).outcome =
        .ok ⟨base.size, anchorsOf marker none block⟩ ∧
      Shows copy bound held (create base template values).document ∧
      (sites marker block).map bound = values := by
  have anchorCount := copy.length_anchors
  have siteCount := copy.serves.length_eq
  let updates := (List.range' 0 template.slots.length).zip values
  have updatesPlain : ∀ update ∈ updates, ∀ id, update.2 ≠ .node id :=
    fun update member => plain _ (List.of_mem_zip member).2
  have zipped : bindings (anchorsOf marker none block) updates =
      (anchorsOf marker none block).zip values := by
    have whole := bindings_range' [] (anchorsOf marker none block) values
    rwa [anchorCount] at whole
  have last : lastValues ((sites marker block).map (blankValue marker)) updates = values := by
    have same : ((sites marker block).map (blankValue marker)).length = values.length := by
      rw [List.length_map]
      omega
    have whole := lastValues_range' [] _ same
    rwa [List.length_map, siteCount, anchorCount] at whole
  obtain ⟨bound, held, done, shows, shown⟩ := copy.shows.bindAll updatesPlain
  rw [zipped] at done shows
  rw [last] at shown
  refine ⟨bound, held, ?_, ?_, shown⟩
  · rw [copy.create_eq copyMade count, Attempt.andThen, done]
  · rwa [copy.create_eq copyMade count, Attempt.andThen, done]

/-- An instance that was created from texts and absent values, and updated with such values in any
order, is written like a new instance with the values that were bound last, but for the order of
attributes. -/
theorem markup_of_updates {options : CompileOptions} {fragments : List String}
    {document other : Document} {values : List Value} {updates : List (Nat × Value)}
    (compiled : Template.compile options fragments = .ok template)
    (reachable : document.Reachable) (otherReachable : other.Reachable)
    (count : values.length = template.slots.length)
    (plain : ∀ value ∈ values, ∀ id, value ≠ .node id)
    (updatesPlain : ∀ update ∈ updates, ∀ id, update.2 ≠ .node id) :
    ∃ made fresh, (create document template values).outcome = .ok made ∧
      (bindAll (create document template values).document
        (bindings made.anchors updates)).outcome = .ok () ∧
      (create other template (lastValues values updates)).outcome = .ok fresh ∧
      ((bindAll (create document template values).document
          (bindings made.anchors updates)).document.below made.root).contents.Reorders
        ((create other template (lastValues values updates)).document.below fresh.root).contents ∧
      SameButAttributeOrder
        (made.markup (bindAll (create document template values).document
          (bindings made.anchors updates)).document).toList
        (fresh.markup (create other template (lastValues values updates)).document).toList := by
  obtain ⟨tree, compiledAs, contents, _⟩ := compiledAs_of_compile compiled
  have bounded : tree.contents.SlotsBounded := by
    rw [contents]
    exact Forest.slotsBounded_isolated _ _
  -- the instance that is updated
  obtain ⟨copied, block, copyMade, copy, same⟩ :=
    exists_copyOf reachable.wellFormed compiledAs bounded
  obtain ⟨bound, held, created, shows, shown⟩ := copy.exists_shows copyMade count plain
  obtain ⟨rebound, reheld, done, showsLast, last⟩ := shows.bindAll updatesPlain
  -- and the one that is made afresh
  have lastPlain : ∀ value ∈ lastValues values updates, ∀ id, value ≠ .node id := by
    intro value member
    rcases mem_lastValues member with first | ⟨update, later, rfl⟩
    · exact plain value first
    · exact updatesPlain update later
  obtain ⟨fresh, afresh⟩ := exists_createdAs otherReachable.wellFormed compiledAs bounded
    ((length_lastValues values updates).trans count) lastPlain
  have root : (bindAll (create document template values).document
      (bindings (anchorsOf options.marker none block) updates)).document.content? document.size =
        some .fragment := by
    obtain ⟨first, asFirst⟩ := exists_createdAs reachable.wellFormed compiledAs bounded count plain
    obtain rfl := Except.ok.inj (asFirst.outcome.symm.trans created)
    refine Content.eq_of_husk rfl rfl ?_
    rw [husk_bindAll _ (lt_size_of_content? asFirst.root), asFirst.root]
  have reorders := showsLast.reorders_below
  rw [last, shown, same, ← afresh.contents] at reorders
  refine ⟨_, fresh, created, done, afresh.outcome, reorders, ?_⟩
  rw [afresh.markup_eq, ← afresh.contents, Instance.markup,
    markup_of_fragment showsLast.holds.wellFormed root
      (showsLast.holds.wellFormed.hasBelow_below _), String.toList_ofList, String.toList_ofList]
  exact reorders.markup false

/-- A title that is taken away and given again comes last among the attributes. -/
theorem markup_of_retitled_paragraph :
    let values := [Value.text "first", .text "within"]
    let updates := [(0, Value.null), (1, .text "a & b"), (0, .text "second")]
    ∃ template made fresh,
      Template.compile {} ["<p title=", " lang=en>", "</p>"] = .ok template ∧
      (create .empty template values).outcome = .ok made ∧
      (create .empty template [.text "second", .text "a & b"]).outcome = .ok fresh ∧
      SameButAttributeOrder
        (made.markup (bindAll (create .empty template values).document
          (bindings made.anchors updates)).document).toList
        (fresh.markup
          (create .empty template [.text "second", .text "a & b"]).document).toList := by
  intro values updates
  have computed : (Template.compile {} ["<p title=", " lang=en>", "</p>"]).toOption.map
      Template.slots = some [.attributeValue [0] "title", .region [0, 0]] := by decide +kernel
  obtain ⟨template, compiled, slots⟩ := Option.map_eq_some_iff.1 computed
  have plain : ∀ value ∈ values, ∀ id, value ≠ .node id := by simp [values]
  have updatesPlain : ∀ update ∈ updates, ∀ id, update.2 ≠ .node id := by simp [updates]
  obtain ⟨made, fresh, created, _, afresh, _, markup⟩ := markup_of_updates
    (eq_ok_of_toOption compiled) .empty .empty (by rw [slots]; rfl) plain updatesPlain
  exact ⟨template, made, fresh, eq_ok_of_toOption compiled, created, afresh, markup⟩

end Instance

end MarkupTemplate
