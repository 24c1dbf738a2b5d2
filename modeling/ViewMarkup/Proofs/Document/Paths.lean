import ViewMarkup.Proofs.Document.InPlace
import ViewMarkup.Proofs.Session.Loading

/-!
# The names of definitions in place

The type of an anonymous definition is made up: it is read off the path that leads to the definition, from
the type that is declared around it through the names of the elements in which it stands. A path is written
with underscores between its parts, and the parts may have underscores of their own. So two paths may read
the same, and a path may read like a type that is declared; then the two definitions have one name, and of
the two the store of a session keeps the later one.

That does not happen if paths are apart: where two of them part, neither goes on like the other with an
underscore behind it, and the types that made-up names begin with are declared once.

## Main definitions

* `TypePath` — a declared type and the names of elements below it.
* `Definition.paths` — the paths to a definition and to those in place inside it.
* `Definition.AreApart` — paths that do not read the same.

## Main statements

* `Element.map_pathsAll` — names are paths as they read.
* `Element.count_pathsAll_le` — a path is there as often as the type that it begins with is declared.
* `TypePath.text_injective` — paths that are apart read differently.
* `Definition.names_of_definitions` — the names of the definitions of a document.
-/

namespace ViewMarkup

/-! ### Paths -/

/-- The way to a definition in place: the type that is declared around it, and the names of the elements
below that type in which it stands. -/
structure TypePath where
  /-- The type that is declared. -/
  declared : String
  /-- The names of the elements, from the outside to the inside. -/
  below : List String
deriving Repr, DecidableEq

namespace TypePath

/-- Names, each with an underscore in front. -/
def tail : List String → String
  | [] => ""
  | name :: names => "_" ++ name ++ tail names

/-- How a path reads. -/
def text (p : TypePath) : String := p.declared ++ tail p.below

/-- The path to what is declared as a type. -/
def root (typeName : String) : TypePath := ⟨typeName, []⟩

/-- The path with one more name. -/
def snoc (p : TypePath) (name : String) : TypePath := { p with below := p.below ++ [name] }

/-- The path to the definition in place of an element. -/
def into (p : TypePath) (name : String) (d : Definition) : TypePath :=
  if d.isAnonymous then p.snoc name else root d.typeName

/-- The tail of a name is put together from its parts. -/
lemma tail_append (xs ys : List String) : tail (xs ++ ys) = tail xs ++ tail ys := by
  induction xs with
  | nil => simp [tail]
  | cons x xs ih =>
    rw [List.cons_append, tail, tail, ih]
    simp only [String.append_assoc]

/-- The text of a path to a declared type. -/
lemma text_root (typeName : String) : (root typeName).text = typeName := by
  simp [text, root, tail]

/-- The text of a path that goes one element further. -/
lemma text_snoc (p : TypePath) (name : String) : (p.snoc name).text = p.text ++ "_" ++ name := by
  simp [text, snoc, tail_append, tail, String.append_assoc]

/-- A definition is anonymous if its path goes below a declared type. -/
lemma isAnonymous_into (p : TypePath) (name : String) (d : Definition) :
    d.isAnonymous = !(p.into name d).below.isEmpty := by
  unfold into
  cases d.isAnonymous <;> simp [snoc, root]

/-- A path leads past another one, or to it. -/
def IsAbove (p q : TypePath) : Prop := p.declared = q.declared ∧ p.below <+: q.below

instance (p q : TypePath) : Decidable (p.IsAbove q) := inferInstanceAs (Decidable (_ ∧ _))

/-- What is above by way of an element is above, and not the same. -/
lemma IsAbove.of_snoc {p q : TypePath} {name : String} (h : (p.snoc name).IsAbove q) :
    p.IsAbove q ∧ p ≠ q := by
  refine ⟨⟨h.1, (List.prefix_append _ _).trans h.2⟩, ?_⟩
  rintro rfl
  have := h.2.length_le
  simp [snoc] at this

/-- Only one element of a scope leads down to a given path. -/
lemma IsAbove.snoc_inj {p q : TypePath} {x y : String} (hx : (p.snoc x).IsAbove q)
    (hy : (p.snoc y).IsAbove q) : x = y := by
  have := List.prefix_of_prefix_length_le hx.2 hy.2 (by simp [snoc])
  have := this.eq_of_length (by simp [snoc])
  simpa [snoc] using this

/-- The path into an element leads below that element. -/
lemma isAbove_snoc_of_into {p q : TypePath} {name : String} {d : Definition}
    (h : (p.into name d).below ≠ [] ∧ (p.into name d).IsAbove q) : (p.snoc name).IsAbove q := by
  unfold into at h
  split at h
  · exact h.2
  · exact (h.1 rfl).elim

/-! ### How paths read -/

/-- A name goes on like another one with an underscore behind it. -/
def Continues (x y : String) : Prop := x.toList ++ ['_'] <+: y.toList

instance (x y : String) : Decidable (Continues x y) := inferInstanceAs (Decidable (_ <+: _))

/-- Where two lists of names part, neither name goes on like the other. -/
def Part : List String → List String → Prop
  | x :: xs, y :: ys => (x = y ∧ Part xs ys) ∨ (x ≠ y ∧ ¬ Continues x y ∧ ¬ Continues y x)
  | _, _ => True

instance decidablePart : (xs ys : List String) → Decidable (Part xs ys)
  | [], _ => inferInstanceAs (Decidable True)
  | _ :: _, [] => inferInstanceAs (Decidable True)
  | x :: xs, y :: ys =>
    have := decidablePart xs ys
    inferInstanceAs (Decidable ((x = y ∧ Part xs ys) ∨ (x ≠ y ∧ ¬ Continues x y ∧ ¬ Continues y x)))

/-- What follows a name begins with an underscore. -/
lemma continues_of_append_eq {x y : String} {xs ys : List String} (hne : x ≠ y)
    (hlength : x.toList.length ≤ y.toList.length) (h : x ++ TypePath.tail xs = y ++ TypePath.tail ys) :
    Continues x y := by
  have hchars := congrArg String.toList h
  rw [String.toList_append, String.toList_append] at hchars
  obtain ⟨rest, hy, hrest⟩ : ∃ rest, y.toList = x.toList ++ rest ∧
      (TypePath.tail xs).toList = rest ++ (TypePath.tail ys).toList := by
    rcases List.append_eq_append_iff.1 hchars with ⟨rest, hy, hrest⟩ | ⟨rest, hx, hrest⟩
    · exact ⟨rest, hy, hrest⟩
    · rw [hx, List.length_append] at hlength
      obtain rfl : rest = [] := List.length_eq_zero_iff.1 (by omega)
      rw [List.append_nil] at hx
      exact (hne (String.toList_inj.1 hx)).elim
  cases rest with
  | nil =>
    rw [List.append_nil] at hy
    exact (hne (String.toList_inj.1 hy).symm).elim
  | cons c rest =>
    cases xs with
    | nil => simp [TypePath.tail] at hrest
    | cons name names =>
      have hc : c = '_' := by
        simp only [TypePath.tail, String.toList_append, List.append_assoc] at hrest
        exact (List.cons.inj hrest).1.symm
      exact ⟨rest, by rw [hy, hc, List.append_assoc, List.singleton_append]⟩

/-- Lists of names that read the same are equal, if neither goes on like the other where they part. -/
lemma eq_of_tail_eq {xs ys : List String} (hpart : Part xs ys)
    (h : TypePath.tail xs = TypePath.tail ys) : xs = ys := by
  induction xs generalizing ys with
  | nil =>
    cases ys with
    | nil => rfl
    | cons y ys =>
      have := congrArg String.toList h
      simp [TypePath.tail] at this
  | cons x xs ih =>
    cases ys with
    | nil =>
      have := congrArg String.toList h
      simp [TypePath.tail] at this
    | cons y ys =>
      rw [TypePath.tail, TypePath.tail, String.append_assoc, String.append_assoc,
        String.append_right_inj] at h
      rcases hpart with ⟨rfl, hpart⟩ | ⟨hxy, hnot, hnot'⟩
      · rw [ih hpart ((String.append_right_inj _).1 h)]
      · rcases Nat.le_total x.toList.length y.toList.length with hle | hle
        · exact (hnot (continues_of_append_eq hxy hle h)).elim
        · exact (hnot' (continues_of_append_eq (Ne.symm hxy) hle h.symm)).elim

/-- **Paths that read the same are equal**, if neither goes on like the other where they part. -/
theorem text_injective {p q : TypePath} (hpart : Part (p.declared :: p.below) (q.declared :: q.below))
    (h : p.text = q.text) : p = q := by
  have heq := eq_of_tail_eq hpart (by
    simpa [tail, text, String.append_assoc] using congrArg ("_" ++ ·) h)
  cases p
  cases q
  simpa using heq

end TypePath

mutual

/-- The paths to the definitions in place inside an element, in document order. -/
def Element.paths (p : TypePath) : Element → List TypePath
  | ⟨_, _, _, _, _, children, reference, name⟩ =>
      (match reference with
        | some (.inline d) => Definition.pathsFrom (p.into name d) d
        | _ => [])
      ++ Element.pathsAll p children

/-- The paths to the definitions in place inside elements, one after the other. -/
def Element.pathsAll (p : TypePath) : List Element → List TypePath
  | [] => []
  | e :: es => e.paths p ++ Element.pathsAll p es

/-- The path to a definition, and those to the definitions in place inside it. -/
def Definition.pathsFrom (p : TypePath) : Definition → List TypePath
  | ⟨_, _, _, _, _, children⟩ => p :: Element.pathsAll p children

end

/-- The paths to a definition that is declared and to those in place inside it, in document order. -/
def Definition.paths (d : Definition) : List TypePath := d.pathsFrom (.root d.typeName)

/-- The paths of a definition are its own and those of its elements. -/
lemma Definition.pathsFrom_eq (p : TypePath) (d : Definition) :
    d.pathsFrom p = p :: Element.pathsAll p d.children := by
  cases d
  rw [Definition.pathsFrom]

/-- The definitions of a definition are itself and those in its elements. -/
lemma Definition.definitions_eq (d : Definition) :
    d.definitions = d :: Element.definitionsAll d.children := by
  cases d
  rw [Definition.definitions]

namespace Element

/-- The paths in elements: of the first, of those inside it, and of the others. -/
lemma pathsAll_cons (p : TypePath) (e : Element) (es : List Element) :
    pathsAll p (e :: es) =
      ((e.inline?.map fun d => d.pathsFrom (p.into e.name d)).getD [] ++ pathsAll p e.children) ++
        pathsAll p es := by
  obtain ⟨kind, field, layout, properties, styles, children, reference, name⟩ := e
  rw [pathsAll, paths.eq_def]
  match reference with
  | none => rfl
  | some (.named _) => rfl
  | some (.inline _) => rfl

/-- A definition in place has the name that its path reads. -/
lemma Encloses.typeName_eq {p : TypePath} {e : Element} {d : Definition} (h : e.Encloses p.text)
    (hd : e.inline? = some d) : d.typeName = (p.into e.name d).text := by
  unfold TypePath.into
  split
  · next ha => rw [TypePath.text_snoc, (h d (reference_of_inline? hd)).2 ha]
  · rw [TypePath.text_root]

/-- **The names of definitions in place** are their paths as they read, and a name is made up if its path
has more than a declared type. -/
theorem map_pathsAll {p : TypePath} {es : List Element} (henc : ∀ e ∈ walkAll es, e.Encloses p.text)
    (hscopes : ∀ d ∈ definitionsAll es, d.IsScope) :
    (definitionsAll es).map (fun d => (d.typeName, d.isAnonymous)) =
      (pathsAll p es).map fun q => (q.text, !q.below.isEmpty) := by
  induction es using induction_inside generalizing p with
  | nil => rfl
  | cons e es hinline hchildren hes =>
    rw [walkAll_cons] at henc
    simp only [List.forall_mem_cons, List.forall_mem_append] at henc
    obtain ⟨he, hinside, hafter⟩ := henc
    rw [definitionsAll_cons] at hscopes ⊢
    simp only [List.forall_mem_append] at hscopes
    obtain ⟨⟨hd, hc⟩, hs⟩ := hscopes
    rw [pathsAll_cons, List.map_append, List.map_append, List.map_append, List.map_append,
      hchildren hinside hc, hes hafter hs]
    congr 2
    cases hi : e.inline? with
    | none => rfl
    | some d =>
      rw [hi, Option.map_some, Option.getD_some, Definition.definitions_eq] at hd
      simp only [List.forall_mem_cons] at hd
      rw [Option.map_some, Option.map_some, Option.getD_some, Option.getD_some,
        Definition.definitions_eq, Definition.pathsFrom_eq, List.map_cons, List.map_cons]
      have hname := he.typeName_eq hi
      rw [hinline d hi (p := p.into e.name d) (hname ▸ hd.1.encloses) hd.2]
      exact congrArg (· :: _) (Prod.ext hname (p.isAnonymous_into e.name d))

/-- At most one element of a scope stands on the way to a path. -/
lemma countP_isAbove_le (p q : TypePath) {es : List Element} (hn : (es.map (·.name)).Nodup) :
    es.countP (fun e => (p.snoc e.name).IsAbove q) ≤ if p.IsAbove q ∧ p ≠ q then 1 else 0 := by
  by_cases hex : ∃ e ∈ es, (p.snoc e.name).IsAbove q
  · obtain ⟨e, he, habove⟩ := hex
    rw [if_pos habove.of_snoc]
    refine le_trans ?_ (List.nodup_iff_count_le_one.1 hn e.name)
    rw [List.count, List.countP_map]
    refine List.countP_mono_left fun e' _ h => ?_
    simpa using (of_decide_eq_true h).snoc_inj habove
  · rw [List.countP_eq_zero.2 fun e he h => hex ⟨e, he, of_decide_eq_true h⟩]
    exact Nat.zero_le _

/-- The path to a definition counts with those inside it. -/
lemma count_pathsFrom_le {p q : TypePath} (hq : q.below ≠ []) {d : Definition}
    (hn : (d.elements.map (·.name)).Nodup)
    (h : (pathsAll p d.children).count q ≤ (pathsAll p d.children).count (.root q.declared) +
      (walkAll d.children).countP fun e => (p.snoc e.name).IsAbove q) :
    (d.pathsFrom p).count q ≤ (d.pathsFrom p).count (.root q.declared) +
      if p.below ≠ [] ∧ p.IsAbove q then 1 else 0 := by
  have hone := countP_isAbove_le p q hn
  rw [Definition.elements] at hone
  rw [Definition.pathsFrom_eq, List.count_cons, List.count_cons]
  by_cases hpq : p = q
  · subst hpq
    have hself : p.IsAbove p := ⟨rfl, List.prefix_rfl⟩
    have hnone : ¬ (p.IsAbove p ∧ p ≠ p) := fun hne => hne.2 rfl
    have hind : p.below ≠ [] ∧ p.IsAbove p := ⟨hq, hself⟩
    simp only [if_neg hnone] at hone
    simp only [if_pos hind, beq_self_eq_true, if_true]
    omega
  · by_cases habove : p.IsAbove q
    · by_cases hbelow : p.below = []
      · have hroot : p = .root q.declared := by
          cases p
          simp only at hbelow
          rw [TypePath.root, hbelow, ← habove.1]
        simp only [if_pos (And.intro habove hpq)] at hone
        rw [← hroot] at h ⊢
        simp only [beq_iff_eq, if_neg hpq, beq_self_eq_true, if_true]
        omega
      · have hind : p.below ≠ [] ∧ p.IsAbove q := ⟨hbelow, habove⟩
        simp only [if_pos (And.intro habove hpq)] at hone
        simp only [if_pos hind, beq_iff_eq, if_neg hpq]
        omega
    · have hnone : ¬ (p.IsAbove q ∧ p ≠ q) := fun hne => habove hne.1
      simp only [if_neg hnone] at hone
      simp only [beq_iff_eq, if_neg hpq]
      omega

/-- A path that is made up from elements is there as often as the type that it begins with is declared;
one more may begin further out. -/
theorem count_pathsAll_le {q : TypePath} (hq : q.below ≠ []) {p : TypePath} {es : List Element}
    (hnames : ∀ d ∈ definitionsAll es, (d.elements.map (·.name)).Nodup) :
    (pathsAll p es).count q ≤ (pathsAll p es).count (.root q.declared) +
      (walkAll es).countP fun e => (p.snoc e.name).IsAbove q := by
  induction es using induction_inside generalizing p with
  | nil => exact Nat.zero_le _
  | cons e es hinline hchildren hes =>
    rw [definitionsAll_cons] at hnames
    simp only [List.forall_mem_append] at hnames
    obtain ⟨⟨hd, hc⟩, hs⟩ := hnames
    have hc := hchildren hc (p := p)
    have hs := hes hs (p := p)
    have hd : ((e.inline?.map fun d => d.pathsFrom (p.into e.name d)).getD []).count q ≤
        ((e.inline?.map fun d => d.pathsFrom (p.into e.name d)).getD []).count (.root q.declared) +
          if (p.snoc e.name).IsAbove q then 1 else 0 := by
      cases hi : e.inline? with
      | none => exact Nat.zero_le _
      | some d =>
        rw [hi, Option.map_some, Option.getD_some, Definition.definitions_eq] at hd
        simp only [List.forall_mem_cons] at hd
        refine (count_pathsFrom_le hq hd.1 (hinline d hi hd.2)).trans (Nat.add_le_add_left ?_ _)
        split
        · next h => rw [if_pos (TypePath.isAbove_snoc_of_into h)]
        · exact Nat.zero_le _
    rw [pathsAll_cons, walkAll_cons]
    simp only [List.count_append, List.countP_cons, List.countP_append, decide_eq_true_eq]
    omega

end Element

/-! ### The names of the definitions of a document -/

/-- Of the definitions of a document the last one of a name is stored. -/
lemma DefinitionStore.get?_insertDocument (s : DefinitionStore) (d : Definition) (path : Path)
    {d' : Definition} (hd' : d' ∈ d.definitions) :
    ((s.insertDocument d path).get? d'.typeName).map (·.definition) =
      (d.definitions.filter (·.typeName = d'.typeName)).getLast? := by
  have holds := s.holds_insertDocument d path d'.typeName
  have hmem : d' ∈ d.definitions.filter (·.typeName = d'.typeName) :=
    List.mem_filter.2 ⟨hd', by simp⟩
  rw [List.getLast?_eq_some_getLast (List.ne_nil_of_mem hmem)] at holds ⊢
  obtain ⟨e, he, hlast⟩ := Option.map_eq_some_iff.1 holds
  rw [(Option.filter_eq_some_iff.1 he).1, Option.map_some, hlast]

namespace Definition

/-- **The paths of a document are apart**: where two of them part, neither goes on like the other, and a
type that made-up names begin with is declared once. -/
structure AreApart (d : Definition) : Prop where
  /-- Neither goes on like the other. -/
  part : ∀ p ∈ d.paths, ∀ q ∈ d.paths, TypePath.Part (p.declared :: p.below) (q.declared :: q.below)
  /-- A type with made-up names is declared once. -/
  once : ∀ p ∈ d.paths, p.below ≠ [] → d.paths.count (.root p.declared) ≤ 1

instance (d : Definition) : Decidable d.AreApart :=
  decidable_of_iff ((∀ p ∈ d.paths, ∀ q ∈ d.paths,
      TypePath.Part (p.declared :: p.below) (q.declared :: q.below)) ∧
      ∀ p ∈ d.paths, p.below ≠ [] → d.paths.count (.root p.declared) ≤ 1)
    ⟨fun h => ⟨h.1, h.2⟩, fun h => ⟨h.part, h.once⟩⟩

/-- No definition has the made-up name of another one. -/
def NoneHides (ds : List Definition) : Prop :=
  ds.Pairwise fun d d' => d.isAnonymous = true ∨ d'.isAnonymous = true → d.typeName ≠ d'.typeName

/-- The names of the definitions of a document are the paths as they read. -/
lemma map_paths {text : String} {d : Definition} (h : ofText text = .ok d) :
    d.definitions.map (fun d' => (d'.typeName, d'.isAnonymous)) =
      d.paths.map fun p => (p.text, !p.below.isEmpty) := by
  obtain ⟨hparsed, hdeclared⟩ := isParsed_of_ofText h
  have henc : ∀ e ∈ Element.walkAll d.children, e.Encloses (TypePath.root d.typeName).text := by
    rw [TypePath.text_root]
    exact hparsed.isScope.encloses
  have hscopes : ∀ d' ∈ Element.definitionsAll d.children, d'.IsScope := fun d' hd' =>
    (hparsed.of_mem_definitions (mem_definitions_iff.2 (.inr hd'))).isScope
  rw [paths, definitions_eq, pathsFrom_eq, List.map_cons, List.map_cons,
    Element.map_pathsAll henc hscopes, TypePath.text_root, hdeclared]
  rfl

/-- No path below a declared type is taken more often than that type is declared. -/
lemma count_paths_le (d : Definition) (hn : ∀ d' ∈ d.definitions, (d'.elements.map (·.name)).Nodup)
    {q : TypePath} (hq : q.below ≠ []) : d.paths.count q ≤ d.paths.count (.root q.declared) := by
  rw [definitions_eq, List.forall_mem_cons] at hn
  have := Element.count_pathsFrom_le (p := .root d.typeName) hq hn.1
    (Element.count_pathsAll_le hq hn.2)
  simpa [paths, TypePath.root] using this

/-- Members that are there once are different from those behind them. -/
lemma pairwise_ne_of_count_le {P : TypePath → Prop} {ps : List TypePath}
    (h : ∀ p ∈ ps, P p → ps.count p ≤ 1) : ps.Pairwise fun p q => P p → p ≠ q := by
  induction ps with
  | nil => exact .nil
  | cons p ps ih =>
    refine .cons (fun q hq hp hpq => ?_) (ih fun q hq hp => ?_)
    · subst hpq
      have := h p List.mem_cons_self hp
      rw [List.count_cons_self] at this
      have := List.count_pos_iff.2 hq
      omega
    · exact (List.count_le_count_cons).trans (h q (List.mem_cons_of_mem _ hq) hp)

/-- Where the paths are apart, no definition has the made-up name of another one. -/
lemma AreApart.noneHides {d : Definition} (h : d.AreApart)
    (hread : d.definitions.map (fun d' => (d'.typeName, d'.isAnonymous)) =
      d.paths.map fun p => (p.text, !p.below.isEmpty))
    (hcount : ∀ p ∈ d.paths, p.below ≠ [] → d.paths.count p ≤ d.paths.count (.root p.declared)) :
    NoneHides d.definitions := by
  have hpaths : d.paths.Pairwise fun p q => p.below ≠ [] ∨ q.below ≠ [] → p.text ≠ q.text := by
    refine (pairwise_ne_of_count_le (P := fun p => p.below ≠ []) fun p hp hb =>
      (hcount p hp hb).trans (h.once p hp hb)).imp_of_mem ?_
    intro p q hp hq hne hb htext
    have heq := TypePath.text_injective (h.part p hp q hq) htext
    subst heq
    exact hne (hb.elim id id) rfl
  have hmap : (d.paths.map fun p => (p.text, !p.below.isEmpty)).Pairwise fun a b =>
      a.2 = true ∨ b.2 = true → a.1 ≠ b.1 := by
    rw [List.pairwise_map]
    refine hpaths.imp fun {p q} hpq hb => hpq ?_
    simpa using hb
  rw [← hread, List.pairwise_map] at hmap
  exact hmap

/-- Where no definition has the made-up name of another one, each is stored under its name; of two that are
declared one may be stored instead of the other. -/
lemma NoneHides.exists_get?_insertDocument {d : Definition} (h : NoneHides d.definitions)
    (s : DefinitionStore) (path : Path) {d' : Definition} (hd' : d' ∈ d.definitions) :
    ∃ e, (s.insertDocument d path).get? d'.typeName = some e ∧
      (e.definition = d' ∨ e.definition.isAnonymous = false ∧ d'.isAnonymous = false) := by
  have hget := s.get?_insertDocument d path hd'
  have hmem : d' ∈ d.definitions.filter (·.typeName = d'.typeName) :=
    List.mem_filter.2 ⟨hd', by simp⟩
  rw [List.getLast?_eq_some_getLast (List.ne_nil_of_mem hmem)] at hget
  obtain ⟨e, he, hlast⟩ := Option.map_eq_some_iff.1 hget
  have hm := List.getLast_mem (List.ne_nil_of_mem hmem)
  rw [← hlast, List.mem_filter, decide_eq_true_eq] at hm
  refine ⟨e, he, (Classical.em (e.definition = d')).imp_right fun hne => ?_⟩
  have : Std.Symm fun d d' : Definition =>
      d.isAnonymous = true ∨ d'.isAnonymous = true → d.typeName ≠ d'.typeName :=
    ⟨fun _ _ h hor heq => h hor.symm heq.symm⟩
  have hdeclared := mt (h.forall hm.1 hd' hne) (not_not.2 hm.2)
  simpa using hdeclared

/-- **The names of the definitions of a document.** They are the paths to the definitions as they read, so
two definitions have one name just if their paths read the same. A path with names of elements in it is not
there more often than the type that it begins with is declared. For each name the store of a session keeps
the last definition of a document. If the paths are apart, no definition has the made-up name of another
one, and what is stored under the name of a definition is the definition itself, unless both are declared. -/
theorem names_of_definitions {text : String} {d : Definition} (h : ofText text = .ok d) :
    (d.definitions.map (fun d' => (d'.typeName, d'.isAnonymous)) =
        d.paths.map fun p => (p.text, !p.below.isEmpty)) ∧
      (∀ p ∈ d.paths, p.below ≠ [] → d.paths.count p ≤ d.paths.count (.root p.declared)) ∧
      (∀ (s : DefinitionStore) path, ∀ d' ∈ d.definitions,
        ((s.insertDocument d path).get? d'.typeName).map (·.definition) =
          (d.definitions.filter (·.typeName = d'.typeName)).getLast?) ∧
      (d.AreApart → NoneHides d.definitions ∧
        ∀ (s : DefinitionStore) path, ∀ d' ∈ d.definitions, ∃ e,
          (s.insertDocument d path).get? d'.typeName = some e ∧
            (e.definition = d' ∨ e.definition.isAnonymous = false ∧ d'.isAnonymous = false)) := by
  have hparsed := (isParsed_of_ofText h).1
  have hnames : ∀ d' ∈ d.definitions, (d'.elements.map (·.name)).Nodup := fun d' hd' =>
    (hparsed.of_mem_definitions hd').nodup_names
  have hcount : ∀ p ∈ d.paths, p.below ≠ [] → d.paths.count p ≤ d.paths.count (.root p.declared) :=
    fun p _ hp => d.count_paths_le hnames hp
  refine ⟨map_paths h, hcount, fun s path d' hd' => s.get?_insertDocument d path hd', fun hapart => ?_⟩
  have hnone := hapart.noneHides (map_paths h) hcount
  exact ⟨hnone, fun s path d' hd' => hnone.exists_get?_insertDocument s path hd'⟩

/-- A document with an anonymous component in the element `b` of each of two components. -/
def twoBoxes : String :=
  "<Component type=\"A\"><Component layout:id=\"b\"><Label/></Component>"
    ++ "<Component type=\"B\"><Component layout:id=\"b\"><Label/></Component></Component></Component>"

/-- The paths of the document are apart, and no definition has the made-up name of another one. -/
theorem names_twoBoxes :
    ∃ d, ofText twoBoxes = .ok d ∧ d.AreApart ∧
      d.definitions.map (·.typeName) = ["A", "A_b", "B", "B_b"] ∧ NoneHides d.definitions := by
  have hread : (ofText twoBoxes).map (fun d => d.paths) =
      .ok [⟨"A", []⟩, ⟨"A", ["b"]⟩, ⟨"B", []⟩, ⟨"B", ["b"]⟩] := by
    unfold twoBoxes
    rw [← String.ofList_append, ofText_ofList]
    cbv
  obtain ⟨d, hd, hpaths⟩ := Except.map_eq_ok.1 hread
  have hapart : d.AreApart := by
    refine ⟨?_, ?_⟩
    · rw [hpaths]
      decide
    · rw [hpaths]
      decide
  obtain ⟨hnames, -, -, hnone⟩ := names_of_definitions hd
  refine ⟨d, hd, hapart, ?_, (hnone hapart).1⟩
  have := congrArg (List.map Prod.fst) hnames
  rw [hpaths, List.map_map] at this
  exact this

/-- A document with a component `A_b` that is declared, and an anonymous one in the element `b` of the
component `A`. -/
def sameNames : String :=
  "<Component type=\"A\"><Component type=\"A_b\"><Label/></Component>"
    ++ "<Component layout:id=\"b\"><Button/></Component></Component>"

/-- The anonymous component has the name of the one that is declared, and it is stored in its place. -/
lemma names_sameNames :
    ∃ d, ofText sameNames = .ok d ∧
      d.paths.map (·.text) = ["A", "A_b", "A_b"] ∧
      d.definitions.map (·.isAnonymous) = [false, false, true] ∧
      ¬ d.AreApart ∧
      ∀ (s : DefinitionStore) path, ((s.insertDocument d path).get? "A_b").map
        (·.definition.isAnonymous) = some true := by
  have hread : (ofText sameNames).map (fun d => d.paths) =
      .ok [⟨"A", []⟩, ⟨"A_b", []⟩, ⟨"A", ["b"]⟩] := by
    unfold sameNames
    rw [← String.ofList_append, ofText_ofList]
    cbv
  obtain ⟨d, hd, hpaths⟩ := Except.map_eq_ok.1 hread
  have hnames := map_paths hd
  rw [hpaths] at hnames
  obtain ⟨d₁, ds, hds, -, hrest⟩ := List.map_eq_cons_iff.1 hnames
  obtain ⟨d₂, ds, rfl, -, hrest⟩ := List.map_eq_cons_iff.1 hrest
  obtain ⟨d₃, ds, rfl, h₃, hrest⟩ := List.map_eq_cons_iff.1 hrest
  obtain rfl := List.map_eq_nil_iff.1 hrest
  have hname₃ : d₃.typeName = "A_b" := congrArg Prod.fst h₃
  have hanonymous : d₃.isAnonymous = true := congrArg Prod.snd h₃
  refine ⟨d, hd, by rw [hpaths]; rfl, ?_, fun h => ?_, fun s path => ?_⟩
  · have := congrArg (List.map Prod.snd) hnames
    rw [List.map_map] at this
    exact this
  · have hpart := h.part
    rw [hpaths] at hpart
    exact absurd hpart (by decide)
  · have hm : d₃ ∈ d.definitions := by rw [hds]; simp
    have hlast := s.get?_insertDocument d path hm
    rw [hds, hname₃] at hlast
    have hfilter : ([d₁, d₂, d₃].filter (·.typeName = "A_b")).getLast? = some d₃ := by
      have hsplit : [d₁, d₂, d₃] = [d₁, d₂] ++ [d₃] := rfl
      have hkept : [d₃].filter (·.typeName = "A_b") = [d₃] := by simp [hname₃]
      rw [hsplit, List.filter_append, hkept, List.getLast?_concat]
    rw [hfilter] at hlast
    obtain ⟨e, he, rfl⟩ := Option.map_eq_some_iff.1 hlast
    rw [he, Option.map_some, hanonymous]

end Definition

end ViewMarkup
