import Mathlib.Data.List.Pairwise
import Mathlib.Data.String.Basic
import Mathlib.Logic.Relation
import ViewMarkup.Proofs.Cutting
import ViewMarkup.Proofs.Style.Cascading

/-!
# Styles that extend styles

The styles behind a reference are found by following what each of them extends. The styles that lead
to one another make up a graph, which may have cycles, and the same text may mean one style here and
another one there, since it is looked up in the group of the style that it stands in first. What is
remembered on the way are not the styles but texts, made of the names of a style and its group.

If no name of a group has a colon in it, these texts are as good as the styles. So following a
reference comes to an end, and it lists the styles in the order in which a walk through the tree of
what they extend leaves them, unless a name on the way means nothing or a style extends itself.

## Main definitions

* `StyleSheets.ofGroups` — the sheets with given groups.
* `StyleSheets.Means` — the style that a reference means.
* `StyleSheets.Extends`, `StyleSheets.Reaches`, `StyleSheets.Calls` — the graph of styles.
* `StyleTree`, `StyleSheets.Unfolds` — the tree of what the styles extend.
* `StyleSheets.expandWithin` — following a reference to a limited depth.

## Main statements

* `StyleSheets.find?_eq_some_iff` — a reference is looked up in the order of groups.
* `StyleSheets.eq_of_key_eq` — styles are known by their keys.
* `StyleSheets.expand_ofText` — what following a reference comes to.
-/

namespace ViewMarkup

/-! ### Texts with a colon -/

/-- A reference that is read as a plain name has no colon in it. -/
lemma StyleReference.not_mem_of_ofText {text name : String} (h : ofText text = plain name) :
    ':' ∉ name.toList := by
  unfold ofText at h
  split at h
  · cases h
  · next hcut =>
    cases h
    intro hm
    rw [Text.trim, String.toList_ofList] at hm
    exact Text.cutAt?_eq_none_iff.1 hcut (Text.mem_of_mem_trimChars hm)

/-- The style of a group that is found under a name has this name. -/
lemma StyleGroup.name_of_find? {g : StyleGroup} {name : String} {style : Style}
    (h : g.find? name = some style) : style.name = name := by
  simpa using List.find?_some h

namespace StyleSheets

/-! ### Groups in order -/

/-- The sheets with given groups; of several with one name the last one counts. -/
def ofGroups (gs : List StyleGroup) : StyleSheets := gs.foldl insert {}

/-- The groups are in the order of their names, each name once. -/
def InOrder (s : StyleSheets) : Prop := s.groups.Pairwise fun g h => g.name < h.name

section Groups

variable {s : StyleSheets} {g h : StyleGroup} {gs : List StyleGroup}

/-- What is listed after a group was placed is that group or was listed before. -/
lemma mem_place (hm : h ∈ place g gs) : h = g ∨ h ∈ gs := by
  induction gs with
  | nil => exact .inl (List.mem_singleton.1 hm)
  | cons x xs ih =>
    rw [place] at hm
    split at hm
    · exact (List.mem_cons.1 hm).imp_right (List.mem_cons_of_mem _)
    · split at hm
      · exact List.mem_cons.1 hm
      · rcases List.mem_cons.1 hm with rfl | hm
        · exact .inr List.mem_cons_self
        · exact (ih hm).imp_right (List.mem_cons_of_mem _)

/-- A group that is stored keeps the sheets in order. -/
lemma InOrder.insert (hs : s.InOrder) (g : StyleGroup) : (s.insert g).InOrder := by
  obtain ⟨gs⟩ := s
  unfold InOrder StyleSheets.insert at *
  dsimp only at *
  induction gs with
  | nil => exact List.pairwise_singleton _ _
  | cons x xs ih =>
    obtain ⟨hx, hxs⟩ := List.pairwise_cons.1 hs
    rw [place]
    split
    · next he => exact List.pairwise_cons.2 ⟨fun y hy => he ▸ hx y hy, hxs⟩
    · next hne =>
      split
      · next hlt =>
        refine List.pairwise_cons.2 ⟨fun y hy => ?_, hs⟩
        rcases List.mem_cons.1 hy with rfl | hy
        · exact hlt
        · exact hlt.trans (hx y hy)
      · next hle =>
        refine List.pairwise_cons.2 ⟨fun y hy => ?_, ih hxs⟩
        rcases mem_place hy with rfl | hy
        · exact lt_of_le_of_ne (not_lt.1 hle) (Ne.symm hne)
        · exact hx y hy

/-- One group more is stored last. -/
lemma ofGroups_concat (gs : List StyleGroup) (g : StyleGroup) :
    ofGroups (gs ++ [g]) = (ofGroups gs).insert g := by
  rw [ofGroups, List.foldl_append]
  rfl

/-- Stored groups are in order. -/
lemma inOrder_ofGroups (gs : List StyleGroup) : (ofGroups gs).InOrder := by
  induction gs using List.reverseRecOn with
  | nil => exact List.Pairwise.nil
  | append_singleton gs g ih => exact ofGroups_concat gs g ▸ ih.insert g

/-- Only what was stored is there. -/
lemma mem_of_mem_ofGroups (hm : h ∈ (ofGroups gs).groups) : h ∈ gs := by
  induction gs using List.reverseRecOn with
  | nil => exact hm
  | append_singleton gs g ih =>
    rw [ofGroups_concat] at hm
    rcases mem_place hm with rfl | hm
    · exact List.mem_append_right _ (List.mem_singleton_self _)
    · exact List.mem_append_left _ (ih hm)

/-- Groups of one name are one. -/
lemma InOrder.eq_of_name_eq (hs : s.InOrder) (hg : g ∈ s.groups) (hh : h ∈ s.groups)
    (hn : g.name = h.name) : g = h :=
  List.inj_on_of_nodup_map (List.pairwise_map.2 (hs.imp ne_of_lt)) hg hh hn

/-- A group is found under its name. -/
lemma name_of_get? {name : String} (h : s.get? name = some g) : g.name = name := by
  simpa using List.find?_some h

/-- Where groups are in order, each is found under its name. -/
lemma InOrder.get?_eq_some_iff (hs : s.InOrder) {name : String} :
    s.get? name = some g ↔ g ∈ s.groups ∧ g.name = name := by
  constructor
  · intro hg
    exact ⟨mem_groups_of_get? hg, name_of_get? hg⟩
  · rintro ⟨hg, rfl⟩
    obtain ⟨h, hh⟩ : ∃ h, s.get? g.name = some h := by
      rw [← Option.isSome_iff_exists, get?, List.find?_isSome]
      exact ⟨g, hg, decide_eq_true rfl⟩
    rw [hh, hs.eq_of_name_eq (mem_groups_of_get? hh) hg (name_of_get? hh)]

/-- A style is found in the group that has it. -/
lemma inGroup?_eq_some_iff {name : String} {f : FoundStyle} :
    inGroup? name g = some f ↔ g.find? name = some f.style ∧ f.group = some g.name := by
  obtain ⟨style, group⟩ := f
  rw [inGroup?, Option.map_eq_some_iff]
  simp [eq_comm]

/-- The first group in order with a style of a given name. -/
lemma InOrder.findSome?_eq_some_iff (hs : s.InOrder) {name : String} {f : FoundStyle} :
    s.groups.findSome? (inGroup? name) = some f ↔ ∃ g ∈ s.groups, inGroup? name g = some f ∧
      ∀ h ∈ s.groups, h.name < g.name → inGroup? name h = none := by
  rw [List.findSome?_eq_some_iff]
  constructor
  · rintro ⟨before, g, after, heq, hf, hbefore⟩
    refine ⟨g, heq ▸ List.mem_append_right _ List.mem_cons_self, hf, fun h hh hlt => ?_⟩
    rw [heq] at hh
    rw [InOrder, heq, List.pairwise_append, List.pairwise_cons] at hs
    rcases List.mem_append.1 hh with hh | hh
    · exact hbefore h hh
    · rcases List.mem_cons.1 hh with rfl | hh
      · exact (lt_irrefl _ hlt).elim
      · exact (lt_asymm hlt (hs.2.1.1 h hh)).elim
  · rintro ⟨g, hg, hf, hless⟩
    obtain ⟨before, after, heq⟩ := List.append_of_mem hg
    refine ⟨before, g, after, heq, hf, fun h hh => hless h (heq ▸ List.mem_append_left _ hh) ?_⟩
    rw [InOrder, heq, List.pairwise_append] at hs
    exact hs.2.2 h hh g List.mem_cons_self

end Groups

/-! ### What a reference means -/

/-- **The style that a reference means** where it stands in a style of the given group, if any. With the
name of a group it is the style of that group. A name alone is that of a style of the same group; if
there is none, of a style of the document; and if there is none either, of the first group, in the
order of their names, that has one. -/
inductive Means (s : StyleSheets) (declared : List Style) (scope : Option String) :
    StyleReference → FoundStyle → Prop where
  /-- A style of a group that is named. -/
  | shared {name : String} {g : StyleGroup} {style : Style} : g ∈ s.groups →
      g.find? name = some style → Means s declared scope (.shared g.name name) ⟨style, some g.name⟩
  /-- A style of the same group. -/
  | own {name : String} {g : StyleGroup} {style : Style} : g ∈ s.groups → scope = some g.name →
      g.find? name = some style → Means s declared scope (.plain name) ⟨style, some g.name⟩
  /-- A style of the document. -/
  | declared {name : String} {style : Style} :
      (∀ g ∈ s.groups, scope = some g.name → g.find? name = none) →
      declared.find? (fun style => style.name = name) = some style →
      Means s declared scope (.plain name) ⟨style, none⟩
  /-- A style of another group. -/
  | other {name : String} {g : StyleGroup} {style : Style} :
      (∀ g ∈ s.groups, scope = some g.name → g.find? name = none) →
      (∀ style ∈ declared, style.name ≠ name) →
      g ∈ s.groups → g.find? name = some style →
      (∀ h ∈ s.groups, h.name < g.name → h.find? name = none) →
      Means s declared scope (.plain name) ⟨style, some g.name⟩

section Means

variable {s : StyleSheets} {declared : List Style} {scope : Option String} {r : StyleReference}
  {f : FoundStyle}

/-- No style is found in a group that has none of the name. -/
lemma inGroup?_eq_none_iff {name : String} {g : StyleGroup} :
    inGroup? name g = none ↔ g.find? name = none := Option.map_eq_none_iff

/-- What is found in the group that a reference stands in. -/
lemma InOrder.own_eq_some_iff (hs : s.InOrder) {name : String} :
    (scope.bind s.get?).bind (inGroup? name) = some f ↔
      ∃ g ∈ s.groups, scope = some g.name ∧ inGroup? name g = some f := by
  simp only [Option.bind_eq_some_iff, hs.get?_eq_some_iff]
  constructor
  · rintro ⟨g, ⟨_, hscope, hg, rfl⟩, hf⟩
    exact ⟨g, hg, hscope, hf⟩
  · rintro ⟨g, hg, hscope, hf⟩
    exact ⟨g, ⟨_, hscope, hg, rfl⟩, hf⟩

/-- No style is found in the group of the scope, if it has none of the name. -/
lemma InOrder.own_eq_none_iff (hs : s.InOrder) {name : String} :
    (scope.bind s.get?).bind (inGroup? name) = none ↔
      ∀ g ∈ s.groups, scope = some g.name → g.find? name = none := by
  rw [Option.eq_none_iff_forall_ne_some]
  simp only [ne_eq, hs.own_eq_some_iff, not_exists, not_and]
  refine ⟨fun h g hg hscope => ?_, fun h f g hg hscope hf => ?_⟩
  · exact inGroup?_eq_none_iff.1 (Option.eq_none_iff_forall_ne_some.2 fun f => h f g hg hscope)
  · rw [inGroup?_eq_none_iff.2 (h g hg hscope)] at hf
    cases hf

/-- **A reference is looked up in the order of groups.** -/
theorem InOrder.find?_eq_some_iff (hs : s.InOrder) :
    s.find? declared scope r = some f ↔ s.Means declared scope r f := by
  constructor
  · intro hf
    match r with
    | .shared group name =>
      rw [find?, Option.bind_eq_some_iff] at hf
      obtain ⟨g, hget, hf⟩ := hf
      obtain ⟨hg, rfl⟩ := hs.get?_eq_some_iff.1 hget
      obtain ⟨style, group⟩ := f
      obtain ⟨hstyle, rfl⟩ := inGroup?_eq_some_iff.1 hf
      exact .shared hg hstyle
    | .plain name =>
      obtain ⟨style, group⟩ := f
      rw [find?, Option.or_eq_some_iff, Option.or_eq_some_iff, Option.or_eq_none_iff,
        hs.own_eq_some_iff, hs.own_eq_none_iff, hs.findSome?_eq_some_iff] at hf
      obtain (⟨g, hg, hscope, hf⟩ | ⟨hown, hf⟩) | ⟨⟨hown, hdeclared⟩, g, hg, hf, hless⟩ := hf
      · obtain ⟨hstyle, rfl⟩ := inGroup?_eq_some_iff.1 hf
        exact .own hg hscope hstyle
      · obtain ⟨style, hstyle, heq⟩ := Option.map_eq_some_iff.1 hf
        cases heq
        exact .declared hown hstyle
      · obtain ⟨hstyle, rfl⟩ := inGroup?_eq_some_iff.1 hf
        rw [Option.map_eq_none_iff, List.find?_eq_none] at hdeclared
        exact .other hown (fun style hstyle => by simpa using hdeclared style hstyle) hg hstyle
          fun h hh hlt => inGroup?_eq_none_iff.1 (hless h hh hlt)
  · intro hm
    cases hm with
    | shared hg hstyle =>
      rw [find?, hs.get?_eq_some_iff.2 ⟨hg, rfl⟩]
      exact inGroup?_eq_some_iff.2 ⟨hstyle, rfl⟩
    | own hg hscope hstyle =>
      rw [find?, hs.own_eq_some_iff.2
        ⟨_, hg, hscope, inGroup?_eq_some_iff (f := ⟨_, _⟩) |>.2 ⟨hstyle, rfl⟩⟩]
      rfl
    | declared hown hstyle =>
      rw [find?, hs.own_eq_none_iff.2 hown, hstyle]
      rfl
    | other hown hdeclared hg hstyle hless =>
      rw [find?, hs.own_eq_none_iff.2 hown, List.find?_eq_none.2 (by simpa using hdeclared)]
      exact hs.findSome?_eq_some_iff.2 ⟨_, hg, inGroup?_eq_some_iff.2 ⟨hstyle, rfl⟩,
        fun h hh hlt => inGroup?_eq_none_iff.2 (hless h hh hlt)⟩

end Means

/-! ### Styles by their keys -/

/-- **A style that a reference that has been read can mean**: the first one of its name in a group, or
the first one of its name in the document, where the name has no colon in it. -/
def Findable (s : StyleSheets) (declared : List Style) (f : FoundStyle) : Prop :=
  (∃ g ∈ s.groups, f.group = some g.name ∧ g.find? f.style.name = some f.style) ∨
    (f.group = none ∧ declared.find? (fun style => style.name = f.style.name) = some f.style ∧
      ':' ∉ f.style.name.toList)

section Keys

variable {s : StyleSheets} {declared : List Style} {scope : Option String} {f g : FoundStyle}

/-- A style that is meant can be found. -/
lemma Means.findable {text : String} (h : s.Means declared scope (.ofText text) f) :
    s.Findable declared f := by
  have named : ∀ {name : String} {g : StyleGroup} {style : Style}, g.find? name = some style →
      g.find? style.name = some style := fun hstyle => by rwa [StyleGroup.name_of_find? hstyle]
  generalize hr : StyleReference.ofText text = r at h
  cases h with
  | shared hg hstyle => exact .inl ⟨_, hg, rfl, named hstyle⟩
  | own hg _ hstyle => exact .inl ⟨_, hg, rfl, named hstyle⟩
  | @declared name style _ hstyle =>
    obtain rfl : style.name = name := by simpa using List.find?_some hstyle
    exact .inr ⟨rfl, hstyle, StyleReference.not_mem_of_ofText hr⟩
  | other _ _ hg hstyle _ => exact .inl ⟨_, hg, rfl, named hstyle⟩

/-- **Styles are known by their keys**, where the names of groups have no colons in them. -/
theorem InOrder.eq_of_key_eq (hs : s.InOrder) (hcolon : ∀ g ∈ s.groups, ':' ∉ g.name.toList)
    (hf : s.Findable declared f) (hg : s.Findable declared g) (h : f.key = g.key) : f = g := by
  obtain ⟨style, group⟩ := f
  obtain ⟨style', group'⟩ := g
  have chars : ∀ group name : String,
      (group ++ ":" ++ name).toList = group.toList ++ ':' :: name.toList := fun group name => by
    rw [String.toList_append, String.toList_append, List.append_assoc]
    rfl
  have hcut := congrArg (fun key => Text.cutAt? ':' (String.toList key)) h
  obtain ⟨x, hx, rfl, hstyle⟩ | ⟨rfl, hstyle, hplain⟩ := hf <;>
    obtain ⟨y, hy, rfl, hstyle'⟩ | ⟨rfl, hstyle', hplain'⟩ := hg <;>
    dsimp only [FoundStyle.key] at h hcut hstyle hstyle'
  · -- two styles of groups
    rw [chars, chars, Text.cutAt?_append_cons (hcolon x hx),
      Text.cutAt?_append_cons (hcolon y hy)] at hcut
    simp only [Option.some.injEq, Prod.mk.injEq, String.toList_inj] at hcut
    obtain rfl := hs.eq_of_name_eq hx hy hcut.1
    rw [hcut.2, hstyle'] at hstyle
    cases hstyle
    rfl
  · -- a style of a group and one of the document
    rw [chars, Text.cutAt?_append_cons (hcolon x hx), Text.cutAt?_eq_none_iff.2 hplain'] at hcut
    cases hcut
  · rw [chars, Text.cutAt?_append_cons (hcolon y hy), Text.cutAt?_eq_none_iff.2 hplain] at hcut
    cases hcut
  · -- two styles of the document
    rw [h, hstyle'] at hstyle
    cases hstyle
    rfl

end Keys

/-! ### The graph of styles -/

/-- A style extends another one: a reference of the first, where it stands, means the second. -/
def Extends (s : StyleSheets) (declared : List Style) (f g : FoundStyle) : Prop :=
  ∃ parent ∈ f.style.parents, s.Means declared f.group (.ofText parent) g

/-- A style can be reached from a reference of an element: the reference means it, or means one that
extends it in some steps. -/
def Reaches (s : StyleSheets) (declared : List Style) (r : StyleReference) (f : FoundStyle) : Prop :=
  ∃ first, s.Means declared none r first ∧ Relation.ReflTransGen (s.Extends declared) first f

/-- A reference is called on the way from one of an element, standing in a group or in none: it is that
of the element itself, or a style that can be reached has it among those that it extends. -/
inductive Calls (s : StyleSheets) (declared : List Style) (r : StyleReference) :
    Option String → StyleReference → Prop where
  /-- The reference of the element. -/
  | here : Calls s declared r none r
  /-- A reference of a style that can be reached. -/
  | parent {f : FoundStyle} {text : String} : s.Reaches declared r f → text ∈ f.style.parents →
      Calls s declared r f.group (.ofText text)

end StyleSheets

/-- A tree of styles: a style with the trees of those that it extends. -/
inductive StyleTree where
  /-- The tree of a style. -/
  | node (found : FoundStyle) (parents : List StyleTree)

mutual

/-- The styles of a tree in post-order: those of the trees of what the style extends, one tree after the
other, and then the style. -/
def StyleTree.postOrder : StyleTree → List Style
  | .node f parents => StyleTree.postOrderAll parents ++ [f.style]

/-- The styles of trees in post-order, one tree after the other. -/
def StyleTree.postOrderAll : List StyleTree → List Style
  | [] => []
  | tree :: trees => tree.postOrder ++ StyleTree.postOrderAll trees

end

namespace StyleSheets

/-- **References unfold to trees**: each to the tree of the style that it means, below which are the trees
of the references that this style extends, in the order written. -/
inductive Unfolds (s : StyleSheets) (declared : List Style) :
    Option String → List StyleReference → List StyleTree → Prop where
  /-- No references. -/
  | nil {scope : Option String} : Unfolds s declared scope [] []
  /-- A reference and those after it. -/
  | cons {scope : Option String} {r : StyleReference} {rs : List StyleReference} {f : FoundStyle}
      {parents trees : List StyleTree} : s.Means declared scope r f →
      Unfolds s declared f.group (f.style.parents.map .ofText) parents →
      Unfolds s declared scope rs trees →
      Unfolds s declared scope (r :: rs) (.node f parents :: trees)

section Graph

variable {s : StyleSheets} {declared : List Style} {way : List String} {scope : Option String}
  {r : StyleReference} {rs : List StyleReference} {styles : List Style} {f g : FoundStyle}

/-- What is listed behind references is the post-order of the trees to which they unfold. -/
lemma Lists.exists_unfolds (hs : s.InOrder) (h : s.Lists declared way scope rs styles) :
    ∃ trees, s.Unfolds declared scope rs trees ∧ styles = StyleTree.postOrderAll trees := by
  induction h with
  | nil => exact ⟨[], .nil, rfl⟩
  | cons hf _ _ _ ih ih' =>
    obtain ⟨parents, hparents, rfl⟩ := ih
    obtain ⟨trees, htrees, rfl⟩ := ih'
    refine ⟨_, .cons (hs.find?_eq_some_iff.1 hf) hparents htrees, ?_⟩
    rw [StyleTree.postOrderAll, StyleTree.postOrder, List.append_assoc, List.singleton_append]

/-- Each of the references behind which styles are listed means one that is not on the way, and
the styles that it extends are listed too. -/
lemma Lists.exists_parents (h : s.Lists declared way scope rs styles) (hr : r ∈ rs) :
    ∃ f parents, s.find? declared scope r = some f ∧ f.key ∉ way ∧
      s.Lists declared (f.key :: way) f.group (f.style.parents.map .ofText) parents := by
  induction rs generalizing styles with
  | nil => cases hr
  | cons r' rs ih =>
    cases h with
    | cons hf hw hparents hothers =>
      rcases List.mem_cons.1 hr with rfl | hr
      · exact ⟨_, _, hf, hw, hparents⟩
      · exact ih hothers hr

/-- What a style extends, if styles are listed behind its references. -/
lemma Lists.parents_of_extends (hs : s.InOrder)
    (h : s.Lists declared way f.group (f.style.parents.map .ofText) styles)
    (hg : s.Extends declared f g) : g.key ∉ way ∧ ∃ parents,
      s.Lists declared (g.key :: way) g.group (g.style.parents.map .ofText) parents := by
  obtain ⟨text, ht, hm⟩ := hg
  obtain ⟨g', parents, hf, hw, hparents⟩ := h.exists_parents (List.mem_map_of_mem ht)
  cases (hs.find?_eq_some_iff.2 hm).symm.trans hf
  exact ⟨hw, parents, hparents⟩

/-- If styles are listed behind the references of a style, so they are behind those of all styles that
can be reached from it, with a longer way. -/
lemma Lists.exists_of_reflTransGen (hs : s.InOrder)
    (h : s.Lists declared (f.key :: way) f.group (f.style.parents.map .ofText) styles)
    (hg : Relation.ReflTransGen (s.Extends declared) f g) : ∃ way' parents,
      f.key ∈ g.key :: way' ∧
        s.Lists declared (g.key :: way') g.group (g.style.parents.map .ofText) parents := by
  induction hg with
  | refl => exact ⟨way, styles, List.mem_cons_self, h⟩
  | tail _ hg ih =>
    obtain ⟨way', parents, hmem, hparents⟩ := ih
    obtain ⟨-, parents', hparents'⟩ := hparents.parents_of_extends hs hg
    exact ⟨_, parents', List.mem_cons_of_mem _ hmem, hparents'⟩

/-- A style whose references have styles listed behind them does not extend itself. -/
lemma Lists.not_transGen (hs : s.InOrder)
    (h : s.Lists declared (f.key :: way) f.group (f.style.parents.map .ofText) styles) :
    ¬ Relation.TransGen (s.Extends declared) f f := by
  intro hcycle
  obtain ⟨g, hg, hback⟩ := Relation.TransGen.tail'_iff.1 hcycle
  obtain ⟨way', parents, hmem, hparents⟩ := h.exists_of_reflTransGen hs hg
  exact (hparents.parents_of_extends hs hback).1 hmem

/-- **Where styles can be listed** behind a reference, every reference that is called means one, and none
that can be reached extends itself. -/
theorem Lists.resolves (hs : s.InOrder) (h : s.Lists declared [] none [r] styles) :
    (∀ scope r', s.Calls declared r scope r' → ∃ f, s.Means declared scope r' f) ∧
      ∀ f, s.Reaches declared r f → ¬ Relation.TransGen (s.Extends declared) f f := by
  obtain ⟨first, parents, hfirst, -, hparents⟩ := h.exists_parents List.mem_cons_self
  have reached : ∀ f, s.Reaches declared r f → ∃ way parents,
      s.Lists declared (f.key :: way) f.group (f.style.parents.map .ofText) parents := by
    rintro f ⟨first', hmeans, hf⟩
    cases hfirst.symm.trans (hs.find?_eq_some_iff.2 hmeans)
    obtain ⟨way, parents, -, hlists⟩ := hparents.exists_of_reflTransGen hs hf
    exact ⟨way, parents, hlists⟩
  refine ⟨fun scope r' hr' => ?_, fun f hf => ?_⟩
  · cases hr' with
    | here => exact ⟨first, hs.find?_eq_some_iff.1 hfirst⟩
    | parent hf ht =>
      obtain ⟨way, parents, hlists⟩ := reached _ hf
      obtain ⟨g, _, hg, -⟩ := hlists.exists_parents (List.mem_map_of_mem ht)
      exact ⟨g, hs.find?_eq_some_iff.1 hg⟩
  · obtain ⟨way, parents, hlists⟩ := reached f hf
    exact hlists.not_transGen hs

/-! ### What an error says -/

/-- Why references cannot be followed from a style: a style that can be reached from it extends
itself, or a reference of such a style means nothing. -/
def Fails (s : StyleSheets) (declared : List Style) (f : FoundStyle) (error : PropertyError) : Prop :=
  (∃ g, Relation.ReflTransGen (s.Extends declared) f g ∧
      Relation.TransGen (s.Extends declared) g g ∧ error = .cyclicStyle g.key) ∨
    ∃ g, Relation.ReflTransGen (s.Extends declared) f g ∧ ∃ text ∈ g.style.parents,
      (∀ h, ¬ s.Means declared g.group (.ofText text) h) ∧
        error = .unknownStyle (StyleReference.ofText text).text

/-- A style that extends a failing one fails. -/
lemma Fails.of_extends {error : PropertyError} (hg : s.Extends declared f g)
    (h : s.Fails declared g error) : s.Fails declared f error := by
  rcases h with ⟨x, hx, hcycle, he⟩ | ⟨x, hx, hmissing⟩
  · exact .inl ⟨x, .head hg hx, hcycle, he⟩
  · exact .inr ⟨x, .head hg hx, hmissing⟩

/-- A reference to a style that there is not is unknown. -/
lemma expandFrom_of_find?_eq_none (hf : s.find? declared scope r = none) :
    s.expandFrom declared way scope r = .error (.unknownStyle r.text) := by
  rw [expandFrom]
  split
  · rfl
  · next h =>
    rw [hf] at h
    cases h

/-- A reference to a style that there is expands its parents, if it has not been met on the way. -/
lemma expandFrom_of_find?_eq_some (hf : s.find? declared scope r = some f) :
    s.expandFrom declared way scope r =
      if f.key ∈ way then .error (.cyclicStyle f.key)
      else (s.expandAll declared (f.key :: way) f.group (f.style.parents.map .ofText)).map
        (· ++ [f.style]) := by
  rw [expandFrom]
  split
  · next h =>
    rw [hf] at h
    cases h
  · next g h =>
    cases hf.symm.trans h
    refine dite_congr rfl (fun _ => rfl) fun _ => ?_
    dsimp only
    cases s.expandAll declared (f.key :: way) f.group (f.style.parents.map .ofText) <;> rfl

/-- Why a reference does not expand. -/
lemma expandFrom_eq_error {error : PropertyError}
    (h : s.expandFrom declared way scope r = .error error) :
    (s.find? declared scope r = none ∧ error = .unknownStyle r.text) ∨
      ∃ f, s.find? declared scope r = some f ∧
        ((f.key ∈ way ∧ error = .cyclicStyle f.key) ∨ f.key ∉ way ∧
          s.expandAll declared (f.key :: way) f.group (f.style.parents.map .ofText) = .error error) := by
  cases hf : s.find? declared scope r with
  | none =>
    rw [expandFrom_of_find?_eq_none hf] at h
    cases h
    exact .inl ⟨rfl, rfl⟩
  | some f =>
    rw [expandFrom_of_find?_eq_some hf] at h
    refine .inr ⟨f, rfl, ?_⟩
    split at h
    · next hw =>
      cases h
      exact .inl ⟨hw, rfl⟩
    · next hw =>
      cases he : s.expandAll declared (f.key :: way) f.group (f.style.parents.map .ofText) with
      | error e =>
        rw [he] at h
        cases h
        exact .inr ⟨hw, rfl⟩
      | ok parents =>
        rw [he] at h
        cases h

/-- Several references fail to expand because of one. -/
lemma expandAll_eq_error {error : PropertyError}
    (h : s.expandAll declared way scope rs = .error error) :
    ∃ r ∈ rs, s.expandFrom declared way scope r = .error error := by
  induction rs with
  | nil =>
    rw [expandAll] at h
    cases h
  | cons r rs ih =>
    rw [expandAll] at h
    split at h
    · next he =>
      cases h
      exact ⟨r, List.mem_cons_self, he⟩
    · split at h
      · next he =>
        cases h
        obtain ⟨r', hr', he'⟩ := ih he
        exact ⟨r', List.mem_cons_of_mem _ hr', he'⟩
      · cases h

/-- **What an error says** of the references of a style to which a way has led.

**Proof sketch.** Induction on the number of styles that are not on the way. The keys on the way are those
of styles from which the style can be reached, so that a key that is met again closes a cycle: it is
the key of one style alone. -/
theorem fails_of_expandAll (hs : s.InOrder) (hcolon : ∀ g ∈ s.groups, ':' ∉ g.name.toList)
    {error : PropertyError} (hway : ∀ key ∈ way, ∃ g, key = g.key ∧ s.Findable declared g ∧
      Relation.ReflTransGen (s.Extends declared) g f)
    (h : s.expandAll declared way f.group (f.style.parents.map .ofText) = .error error) :
    s.Fails declared f error := by
  induction hn : s.unvisited declared way using Nat.strongRecOn generalizing way f with
  | ind n ih =>
    obtain ⟨r, hr, he⟩ := expandAll_eq_error h
    obtain ⟨text, ht, rfl⟩ := List.mem_map.1 hr
    obtain ⟨hf, rfl⟩ | ⟨g, hg, ⟨hw, rfl⟩ | ⟨hw, he⟩⟩ := expandFrom_eq_error he
    · refine .inr ⟨f, .refl, text, ht, fun g hg => ?_, rfl⟩
      rw [hs.find?_eq_some_iff.2 hg] at hf
      cases hf
    · have hmeans := hs.find?_eq_some_iff.1 hg
      obtain ⟨g', hkey, hfindable, hback⟩ := hway _ hw
      obtain rfl := hs.eq_of_key_eq hcolon hmeans.findable hfindable hkey
      have hextends : s.Extends declared f g := ⟨text, ht, hmeans⟩
      exact .inl ⟨g, .single hextends, .tail' hback hextends, rfl⟩
    · have hmeans := hs.find?_eq_some_iff.1 hg
      have hextends : s.Extends declared f g := ⟨text, ht, hmeans⟩
      refine .of_extends hextends
        (ih _ (hn ▸ unvisited_cons_lt (mem_all_of_find? hg) hw) ?_ he rfl)
      intro key hkey
      rcases List.mem_cons.1 hkey with rfl | hkey
      · exact ⟨g, rfl, hmeans.findable, .refl⟩
      · obtain ⟨x, hx, hfindable, hback⟩ := hway key hkey
        exact ⟨x, hx, hfindable, hback.tail hextends⟩

end Graph

/-! ### A limited depth -/

/-- The styles behind references one after the other, if `one` finds those behind each. -/
def expandEach (one : StyleReference → Option (Except PropertyError (List Style))) :
    List StyleReference → Option (Except PropertyError (List Style))
  | [] => some (.ok [])
  | r :: rs => do
      match ← one r with
      | .error e => return .error e
      | .ok first => return (← expandEach one rs).map (first ++ ·)

/-- The styles behind a reference, followed to a limited depth: nothing where the depth does not suffice. -/
def expandWithin (s : StyleSheets) (declared : List Style) (depth : Nat) (way : List String)
    (scope : Option String) (r : StyleReference) : Option (Except PropertyError (List Style)) :=
  match depth with
  | 0 => none
  | depth + 1 =>
      match s.find? declared scope r with
      | none => some (.error (.unknownStyle r.text))
      | some f =>
          if f.key ∈ way then some (.error (.cyclicStyle f.key))
          else
            (expandEach (expandWithin s declared depth (f.key :: way) f.group)
              (f.style.parents.map .ofText)).map (·.map (· ++ [f.style]))

section Depth

variable {s : StyleSheets} {declared : List Style} {way : List String} {scope : Option String}

/-- References expand together as they do one by one. -/
lemma expandEach_eq_some {one : StyleReference → Option (Except PropertyError (List Style))}
    {rs : List StyleReference}
    (h : ∀ r ∈ rs, one r = some (s.expandFrom declared way scope r)) :
    expandEach one rs = some (s.expandAll declared way scope rs) := by
  induction rs with
  | nil => rw [expandEach, expandAll]
  | cons r rs ih =>
    rw [List.forall_mem_cons] at h
    rw [expandEach, expandAll, h.1, ih h.2]
    cases s.expandFrom declared way scope r with
    | error e => rfl
    | ok first => cases s.expandAll declared way scope rs <;> rfl

/-- **Following a reference ends** within a depth of the number of styles that are not on the way. -/
theorem expandWithin_eq_some {depth : Nat} (h : s.unvisited declared way < depth)
    (r : StyleReference) :
    s.expandWithin declared depth way scope r = some (s.expandFrom declared way scope r) := by
  induction depth generalizing way scope r with
  | zero => exact absurd h (Nat.not_lt_zero _)
  | succ depth ih =>
    rw [expandWithin]
    split
    · next hf => rw [expandFrom_of_find?_eq_none hf]
    · next f hf =>
      rw [expandFrom_of_find?_eq_some hf]
      split
      · rfl
      · next hw =>
        have hless := unvisited_cons_lt (mem_all_of_find? hf) hw
        rw [expandEach_eq_some fun r _ => ih (by omega) r]
        rfl

end Depth

/-! ### What following a reference comes to -/

/-- **What following a reference comes to.** Let groups be given whose names have no colons in them, the
styles of a document, and a reference that is read from a text. Following it ends within a depth of the
number of all styles. It succeeds if and only if every reference that is called on the way means a
style and no style that can be reached extends itself, and then what is listed is the post-order of the
tree to which the reference unfolds. If it fails, its error names a style that can be reached and
extends itself, or a reference that is called and means nothing.

**Proof sketch.** If styles are listed, they are so behind the references of every style that can be
reached, with a way on which the styles before it are (`Lists.exists_of_reflTransGen`); so none of
these is met again. If following a reference fails, the keys on the way to where it does are those of
styles that lead there, and a key that is met again is that of one of them (`fails_of_expandAll`). -/
theorem expand_ofText (gs : List StyleGroup) (hcolon : ∀ g ∈ gs, ':' ∉ g.name.toList)
    (declared : List Style) (text : String) {s : StyleSheets} (hs : ofGroups gs = s)
    {r : StyleReference} (hr : StyleReference.ofText text = r) :
    (∀ depth, (s.all declared).length < depth →
      s.expandWithin declared depth [] none r = some (s.expand declared r)) ∧
    ((∃ styles, s.expand declared r = .ok styles) ↔
      (∀ scope r', s.Calls declared r scope r' → ∃ f, s.Means declared scope r' f) ∧
        ∀ f, s.Reaches declared r f → ¬ Relation.TransGen (s.Extends declared) f f) ∧
    (∀ styles, s.expand declared r = .ok styles →
      ∃ tree, s.Unfolds declared none [r] [tree] ∧ styles = tree.postOrder) ∧
    ∀ error, s.expand declared r = .error error →
      (∃ f, s.Reaches declared r f ∧ Relation.TransGen (s.Extends declared) f f ∧
        error = .cyclicStyle f.key) ∨
      ∃ scope r', s.Calls declared r scope r' ∧ (∀ f, ¬ s.Means declared scope r' f) ∧
        error = .unknownStyle r'.text := by
  subst hs hr
  have hs := inOrder_ofGroups gs
  have hcolon : ∀ g ∈ (ofGroups gs).groups, ':' ∉ g.name.toList :=
    fun g hg => hcolon g (mem_of_mem_ofGroups hg)
  have fails : ∀ error, (ofGroups gs).expand declared (.ofText text) = .error error →
      (∃ f, (ofGroups gs).Reaches declared (.ofText text) f ∧
        Relation.TransGen ((ofGroups gs).Extends declared) f f ∧ error = .cyclicStyle f.key) ∨
      ∃ scope r', (ofGroups gs).Calls declared (.ofText text) scope r' ∧
        (∀ f, ¬ (ofGroups gs).Means declared scope r' f) ∧ error = .unknownStyle r'.text := by
    intro error he
    obtain ⟨hf, rfl⟩ | ⟨f, hf, ⟨hw, -⟩ | ⟨-, he⟩⟩ := expandFrom_eq_error he
    · refine .inr ⟨none, _, .here, fun f hm => ?_, rfl⟩
      rw [hs.find?_eq_some_iff.2 hm] at hf
      cases hf
    · exact absurd hw List.not_mem_nil
    · have hmeans := hs.find?_eq_some_iff.1 hf
      have hway : ∀ key ∈ [f.key], ∃ g, key = g.key ∧ (ofGroups gs).Findable declared g ∧
          Relation.ReflTransGen ((ofGroups gs).Extends declared) g f :=
        List.forall_mem_singleton.2 ⟨f, rfl, hmeans.findable, .refl⟩
      rcases fails_of_expandAll hs hcolon hway he with ⟨g, hg, hcycle, rfl⟩ | ⟨g, hg, t, ht, hno, rfl⟩
      · exact .inl ⟨g, ⟨f, hmeans, hg⟩, hcycle, rfl⟩
      · exact .inr ⟨g.group, _, .parent ⟨f, hmeans, hg⟩ ht, hno, rfl⟩
  refine ⟨fun depth hdepth => ?_, ⟨?_, ?_⟩, fun styles hok => ?_, fails⟩
  · exact expandWithin_eq_some (lt_of_le_of_lt List.countP_le_length hdepth) _
  · rintro ⟨styles, hok⟩
    exact ((expand_eq_ok_iff _ _).1 hok).resolves hs
  · rintro ⟨hresolves, hacyclic⟩
    cases he : (ofGroups gs).expand declared (.ofText text) with
    | ok styles => exact ⟨styles, rfl⟩
    | error error =>
      rcases fails error he with ⟨f, hf, hcycle, -⟩ | ⟨scope, r', hr', hno, -⟩
      · exact absurd hcycle (hacyclic f hf)
      · obtain ⟨f, hf⟩ := hresolves scope r' hr'
        exact absurd hf (hno f)
  · obtain ⟨trees, htrees, rfl⟩ := ((expand_eq_ok_iff _ _).1 hok).exists_unfolds hs
    cases htrees with
    | cons hm hparents hnil =>
      cases hnil
      refine ⟨_, .cons hm hparents .nil, ?_⟩
      rw [StyleTree.postOrderAll, StyleTree.postOrderAll, List.append_nil]

/-- A group with one style. -/
def ground : StyleGroup := ⟨"G", [{ name := "base", kind := .label }]⟩

/-- Two styles that extend one of a group, and a third one that extends both. -/
def diamond : List Style :=
  [{ name := "a", kind := .label, parents := ["b", "c"] },
   { name := "b", kind := .label, parents := ["G:base"] },
   { name := "c", kind := .label, parents := ["base"] }]

/-- A style that is reached along two ways is listed twice, and is no cycle. -/
theorem expand_diamond : ∃ tree,
    (ofGroups [ground]).expand diamond (.ofText "a") = .ok tree.postOrder ∧
      (ofGroups [ground]).Unfolds diamond none [.ofText "a"] [tree] ∧
      tree.postOrder.map (·.name) = ["base", "b", "base", "c", "a"] ∧
      ∀ f, (ofGroups [ground]).Reaches diamond (.ofText "a") f →
        ¬ Relation.TransGen ((ofGroups [ground]).Extends diamond) f f := by
  have colons : ∀ g ∈ [ground], ':' ∉ g.name.toList := by decide
  have names : ((ofGroups [ground]).expand diamond (.ofText "a")).toOption.map (·.map (·.name)) =
      some ["base", "b", "base", "c", "a"] := by cbv
  obtain ⟨-, resolves, unfolds, -⟩ := expand_ofText [ground] colons diamond "a" rfl rfl
  cases hok : (ofGroups [ground]).expand diamond (.ofText "a") with
  | error e =>
    rw [hok] at names
    cases names
  | ok styles =>
    rw [hok] at names
    obtain ⟨tree, htree, rfl⟩ := unfolds styles hok
    exact ⟨tree, rfl, htree, Option.some.inj names, (resolves.1 ⟨_, hok⟩).2⟩

end StyleSheets

end ViewMarkup
