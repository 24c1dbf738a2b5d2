import ViewMarkup.Proofs.Constraint.Grammar
import ViewMarkup.Proofs.Constraint.Lexing
import ViewMarkup.Proofs.Fallible

/-!
# Each reader reads its part of the grammar

A clause is read by one reader after the other, and each decides from the next one or two tokens
whether its part is there. For each reader this module proves two facts. What the grammar derives
is read: before the tokens of a part, followed by tokens that cannot continue it, the reader
returns what the part means and leaves what follows. What is read is derived: the tokens that a
reader took are those of a part.

Which tokens may follow a part is said by their kinds alone. Behind a capture there is no other
sign of assignment, behind a relation no other relation, behind a target no point that is not its
own, behind the modifiers no word. A target is the exception: a word is one unless a bracket
follows, and only a modifier puts a bracket behind a word.

## Main statements

* `Priority.ofText_eq_ok_iff` — a priority is the name of a step, or else a number on the scale.
* `Clause.readCapture_tokens`, `Clause.readRelation_tokens`, `Clause.readTarget_token`,
  `Clause.readTargetAnchor_tokens`, `Clause.readModifiers_tokens`, `Clause.readPriority_tokens` —
  what is derived is read.
* `Derivation.ofTokens_tokens` — the same for a whole clause.
* `Clause.exists_of_readCapture`, `Clause.exists_of_readRelation`,
  `Clause.exists_of_readTarget_some`, `Clause.exists_of_readTargetAnchor`,
  `Clause.exists_of_readModifiers`, `Clause.exists_of_readPriority` — what is read is derived.
-/

namespace ViewMarkup

open ViewMarkup.Except

/-- A number token is read as the number in it. -/
lemma Token.IsShaped.ofText?_eq {t : Token} (h : t.IsShaped) (hkind : t.kind = .number) :
    Number.ofText? t.text = some t.number := by
  obtain ⟨bits, hbits⟩ := h.exists_bits hkind .double
  simp [Token.number, Number.ofText?, hbits]

/-- So it is with single precision. -/
lemma Token.IsShaped.singleOfText?_eq {t : Token} (h : t.IsShaped) (hkind : t.kind = .number) :
    Number.singleOfText? t.text = some t.single := by
  obtain ⟨bits, hbits⟩ := h.exists_bits hkind .single
  simp [Token.single, Number.singleOfText?, hbits]

namespace Priority

/-- A name of a priority stands in the table. -/
lemma lookup_names {text : String} {p : Priority} :
    names.lookup text = some p ↔ (text, p) ∈ names := by
  constructor
  · intro h
    obtain ⟨front, back, hentries, -⟩ := List.lookup_eq_some_iff.mp h
    rw [hentries]
    simp
  · intro h
    simp only [names, List.mem_cons, Prod.mk.injEq, List.not_mem_nil, or_false] at h
    obtain ⟨rfl, rfl⟩ | ⟨rfl, rfl⟩ | ⟨rfl, rfl⟩ | ⟨rfl, rfl⟩ := h <;> rfl

/-- A priority is the name of a step, or else a number on the scale. -/
theorem ofText_eq_ok_iff {text : String} {p : Priority} :
    ofText text = .ok p ↔ (text, p) ∈ names ∨
      (∀ q, (text, q) ∉ names) ∧
        ∃ v, Number.singleOfText? text = some v ∧ onScale v = true ∧ p = .custom v := by
  unfold ofText
  rw [← names]
  cases hlookup : names.lookup text with
  | some q =>
      have hq := lookup_names.mp hlookup
      have hp : (text, p) ∈ names ↔ q = p := by
        rw [← lookup_names, hlookup, Option.some.injEq]
      grind
  | none =>
      have hnot : ∀ q, (text, q) ∉ names := fun q hq => by
        rw [lookup_names.mpr hq] at hlookup
        cases hlookup
      grind

end Priority

/-- A numeral does not begin with a letter. -/
lemma Text.exists_cons_of_isNumeral {cs : List Char} (h : IsNumeral cs) :
    ∃ c rest, c.isAlpha = false ∧ cs = c :: rest := by
  obtain ⟨whole, fraction, hwhole, -, rfl | rfl⟩ := h
  · obtain ⟨c, rest, hc, hcons⟩ := Numeral.exists_isDigit_of_append hwhole fraction
    exact ⟨c, rest, isAlpha_eq_false_of_isDigit hc, hcons⟩
  · exact ⟨'-', _, rfl, rfl⟩

/-- A number is not the name of a step. -/
lemma Token.IsShaped.not_mem_names {t : Token} (h : t.IsShaped) (hkind : t.kind = .number)
    (p : Priority) : (t.text, p) ∉ Priority.names := by
  obtain ⟨c, cs, hc, htext⟩ := Text.exists_cons_of_isNumeral ((isShaped_number hkind).mp h)
  intro hmem
  simp only [Priority.names, List.mem_cons, Prod.mk.injEq, List.not_mem_nil, or_false] at hmem
  obtain ⟨hname, -⟩ | ⟨hname, -⟩ | ⟨hname, -⟩ | ⟨hname, -⟩ := hmem <;> rw [hname] at htext <;>
    obtain ⟨rfl, -⟩ := List.cons.inj htext <;> cases hc

namespace Clause

variable {rest : List Token}

/-! ### What is derived is read -/

/-- A capture is read from its tokens. -/
theorem readCapture_tokens (c : Option Capture) (h : ∀ t ∈ rest, t.kind ≠ .assign) :
    readCapture (optional Capture.tokens c ++ rest) = (c.map fun c => c.name.text, rest) := by
  match c, rest with
  | some c, _ => simp [Capture.tokens, readCapture, c.isIdent, c.isAssign]
  | none, [] => rfl
  | none, [_] => rfl
  | none, name :: sign :: rest => simp [readCapture, h sign (by simp)]

/-- A relation is read from its tokens. -/
theorem readRelation_tokens (r : Option WrittenRelation)
    (h : ∀ t ∈ rest, isRelation t.kind = false) :
    readRelation (optional WrittenRelation.tokens r ++ rest) =
      .ok ((r.map WrittenRelation.relation).getD .equal, rest) := by
  match r, rest with
  | some r, _ =>
      simp [WrittenRelation.tokens, readRelation, r.isRelation,
        Relation.ofText?_eq_some_iff.mpr r.isSpelled]
  | none, [] => rfl
  | none, t :: rest => simp [readRelation, h t (by simp)]

/-- A target is read from its token. -/
theorem readTarget_token (r : WrittenTarget) (hshape : r.token.IsShaped)
    (h : startsWith .parenOpen rest = false) :
    readTarget (r.token :: rest) = (some r.meaning, rest) := by
  cases r with
  | parent t isIdent isSuper => simp [WrittenTarget.token, readTarget, isIdent, isSuper,
      WrittenTarget.meaning]
  | field t isIdent notSuper => simp [WrittenTarget.token, readTarget, isIdent, notSuper, h,
      WrittenTarget.meaning]
  | id t name isLayoutId isSpelled =>
      simp [WrittenTarget.token, readTarget, isLayoutId, isSpelled, WrittenTarget.meaning]
  | constant t isNumber =>
      have := Token.IsShaped.ofText?_eq hshape isNumber
      simp only [WrittenTarget.token] at this
      simp [WrittenTarget.token, readTarget, isNumber, this, WrittenTarget.meaning]

/-- The anchor of a target is read from its tokens. -/
theorem readTargetAnchor_tokens (r : Reference) (h : ∀ t ∈ rest, t.kind ≠ .dot) :
    readTargetAnchor r.target.meaning (optional WrittenAnchor.tokens r.anchor ++ rest) =
      .ok (r.anchor.map WrittenAnchor.anchor, rest) := by
  have hconstant := r.noneAfterNumber
  match hanchor : r.anchor, rest with
  | some a, _ =>
      rw [hanchor] at hconstant
      simp only [reduceCtorEq, imp_false, Bool.not_eq_true] at hconstant
      simp [WrittenAnchor.tokens, readTargetAnchor, a.isDot, hconstant, a.isIdent,
        Anchor.ofKeyword?_eq_some_iff.mpr a.isKeyword]
  | none, [] => rfl
  | none, t :: rest => simp [readTargetAnchor, h t (by simp)]

/-- A label is left out. -/
lemma skipLabel_tokens {kind : ModifierKind} {label : Option Label}
    (takesLabel : label.isSome = true → kind.takesLabel = true)
    {t : Token} (h : t.kind = .number) :
    skipLabel kind (optional Label.tokens label ++ t :: rest) = t :: rest := by
  match label, rest with
  | some l, _ => simp [Label.tokens, skipLabel, takesLabel rfl, l.isIdent, l.isBy, l.isColon]
  | none, [] => rfl
  | none, _ :: _ => simp [skipLabel, h]

/-- An argument is one number with a bracket behind it, and no divisor is zero. -/
lemma readArgument_eq_ok_iff {kind : ModifierKind} {ts : List Token}
    {r : { rest : List Token // rest.length ≤ ts.length }} {m : Modifier} :
    readArgument kind ts = .ok (r, m) ↔
      ∃ t close v, skipLabel kind ts = t :: close :: r.val ∧ t.kind = .number ∧
        Number.ofText? t.text = some v ∧ close.kind = .parenClose ∧
        (kind = .divided → (v == 0) = false) ∧ m = ⟨kind, v⟩ := by
  unfold readArgument
  split
  · rename_i hskip
    simp [hskip]
  · rename_i t rest hskip
    split <;> grind

/-- The argument of a call is read from its tokens. -/
lemma readArgument_tokens (c : Call) (rest : List Token) (hshape : c.amount.IsShaped) :
    ∃ hle, readArgument c.kind (optional Label.tokens c.label ++ c.amount :: c.close :: rest) =
      .ok (⟨rest, hle⟩, c.modifier) := by
  refine ⟨by simp; omega, readArgument_eq_ok_iff.mpr ⟨c.amount, c.close, c.amount.number,
    skipLabel_tokens c.takesLabel c.isNumber, c.isNumber, hshape.ofText?_eq c.isNumber, c.isClose,
    c.isDivisor, rfl⟩⟩

/-- Calls are read from their tokens. -/
theorem readModifiers_tokens (calls : List Call) (hshape : ∀ c ∈ calls, c.amount.IsShaped)
    (h : startsWith .ident rest = false) :
    readModifiers (calls.flatMap Call.tokens ++ rest) = .ok (calls.map Call.modifier, rest) := by
  induction calls with
  | nil =>
      match rest with
      | [] => simp [readModifiers]
      | t :: rest =>
          have hident : t.kind ≠ .ident := by simpa [startsWith] using h
          rw [List.flatMap_nil, List.nil_append, readModifiers.eq_def]
          exact if_neg hident
  | cons c calls ih =>
      obtain ⟨hle, hargument⟩ :=
        readArgument_tokens c (calls.flatMap Call.tokens ++ rest) (hshape c (by simp))
      simp only [List.flatMap_cons, Call.tokens, List.cons_append, List.append_assoc,
        List.nil_append]
      rw [readModifiers]
      simp [c.isIdent, c.isOpen, ModifierKind.ofName?_eq_some_iff.mpr c.isName, hargument,
        ih fun c hc => hshape c (by simp [hc])]

/-- A priority is read from its tokens. -/
theorem readPriority_tokens (p : Option WrittenPriority)
    (hshape : ∀ t ∈ optional WrittenPriority.tokens p, t.IsShaped) :
    readPriority (optional WrittenPriority.tokens p) =
      .ok ((p.map WrittenPriority.priority).getD .required, []) := by
  match p with
  | none => rfl
  | some (.step sign word priority isAt isIdent isName) =>
      have := Priority.ofText_eq_ok_iff.mpr (.inl isName)
      simp [WrittenPriority.tokens, readPriority, isAt, isIdent, this, Except.map,
        WrittenPriority.priority]
  | some (.number sign value isAt isNumber onScale) =>
      have hvalue := hshape value (by simp [WrittenPriority.tokens])
      have := Priority.ofText_eq_ok_iff.mpr (.inr ⟨hvalue.not_mem_names isNumber, value.single,
        hvalue.singleOfText?_eq isNumber, onScale, rfl⟩)
      simp [WrittenPriority.tokens, readPriority, isAt, isNumber, this, Except.map,
        WrittenPriority.priority]

end Clause

/-! ### The kinds of tokens that a part derives -/

/-- The kinds of the tokens of a priority. -/
lemma kind_of_mem_priority {p : Option WrittenPriority} {t : Token}
    (h : t ∈ optional WrittenPriority.tokens p) : t.kind ∈ [.atSign, .ident, .number] := by
  match p with
  | none => simp at h
  | some (.step sign word _ isAt isIdent _) =>
      simp only [optional_some, WrittenPriority.tokens, List.mem_cons, List.not_mem_nil,
        or_false] at h
      obtain rfl | rfl := h <;> simp [*]
  | some (.number sign value isAt isNumber _) =>
      simp only [optional_some, WrittenPriority.tokens, List.mem_cons, List.not_mem_nil,
        or_false] at h
      obtain rfl | rfl := h <;> simp [*]

/-- The kinds of the tokens of calls. -/
lemma kind_of_mem_calls {calls : List Call} {t : Token} (h : t ∈ calls.flatMap Call.tokens) :
    t.kind ∈ [.ident, .parenOpen, .colon, .number, .parenClose] := by
  obtain ⟨c, -, h⟩ := List.mem_flatMap.mp h
  have hlabel : ∀ t ∈ optional Label.tokens c.label, t.kind = .ident ∨ t.kind = .colon := by
    match c.label with
    | none => simp
    | some l => simp [Label.tokens, l.isIdent, l.isColon]
  simp only [Call.tokens, List.mem_cons, List.mem_append, List.not_mem_nil, or_false] at h
  obtain rfl | rfl | h | rfl | rfl := h
  · simp [c.isIdent]
  · simp [c.isOpen]
  · obtain h | h := hlabel t h <;> simp [h]
  · simp [c.isNumber]
  · simp [c.isClose]

/-- The kinds of the tokens of a reference. -/
lemma kind_of_mem_reference {r : Option Reference} {t : Token}
    (h : t ∈ optional Reference.tokens r) : t.kind ∈ [.ident, .layoutId, .number, .dot] := by
  match r with
  | none => simp at h
  | some r =>
      simp only [optional_some, Reference.tokens, List.mem_cons] at h
      obtain rfl | h := h
      · cases r.target with
        | parent | field | id | constant => simp [WrittenTarget.token, *]
      · match hanchor : r.anchor with
        | none => simp [hanchor] at h
        | some a =>
            simp only [hanchor, optional_some, WrittenAnchor.tokens, List.mem_cons,
              List.not_mem_nil, or_false] at h
            obtain rfl | rfl := h
            · simp [a.isDot]
            · simp [a.isIdent]

namespace Derivation

/-- The tokens behind the target. -/
def fromCalls (d : Derivation) : List Token :=
  d.calls.flatMap Call.tokens ++ optional WrittenPriority.tokens d.priority

/-- The tokens behind the relation. -/
def fromReference (d : Derivation) : List Token :=
  optional Reference.tokens d.reference ++ d.fromCalls

/-- The tokens behind the capture. -/
def fromRelation (d : Derivation) : List Token :=
  optional WrittenRelation.tokens d.relation ++ d.fromReference

/-- The tokens of a clause are those of the capture and what follows them. -/
lemma tokens_eq (d : Derivation) :
    d.tokens = optional Capture.tokens d.capture ++ d.fromRelation := rfl

/-- No relation, capture or anchor can begin among the calls and the priority. -/
lemma kind_of_mem_fromCalls {d : Derivation} {t : Token} (h : t ∈ d.fromCalls) :
    Clause.isRelation t.kind = false ∧ t.kind ≠ .assign ∧ t.kind ≠ .dot := by
  obtain h | h := List.mem_append.mp h
  · have hkind := kind_of_mem_calls h
    generalize t.kind = k at hkind ⊢
    revert k
    decide
  · have hkind := kind_of_mem_priority h
    generalize t.kind = k at hkind ⊢
    revert k
    decide

/-- No relation or capture can begin behind the relation. -/
lemma kind_of_mem_fromReference {d : Derivation} {t : Token} (h : t ∈ d.fromReference) :
    Clause.isRelation t.kind = false ∧ t.kind ≠ .assign := by
  obtain h | h := List.mem_append.mp h
  · have hkind := kind_of_mem_reference h
    generalize t.kind = k at hkind ⊢
    revert k
    decide
  · exact ⟨(kind_of_mem_fromCalls h).1, (kind_of_mem_fromCalls h).2.1⟩

/-- No capture can end behind the capture. -/
lemma kind_ne_assign_of_mem_fromRelation {d : Derivation} {t : Token}
    (h : t ∈ d.fromRelation) : t.kind ≠ .assign := by
  intro hassign
  obtain h | h := List.mem_append.mp h
  · match hrelation : d.relation with
    | none => simp [hrelation] at h
    | some r =>
        simp only [hrelation, optional_some, WrittenRelation.tokens, List.mem_singleton] at h
        have := r.isRelation
        rw [← h, hassign] at this
        cases this
  · exact (kind_of_mem_fromReference h).2 hassign

/-! ### What is derived is read -/

/-- The capture of a clause is read from its tokens. -/
theorem readCapture_tokens (d : Derivation) :
    Clause.readCapture d.tokens = (d.capture.map fun c => c.name.text, d.fromRelation) :=
  Clause.readCapture_tokens d.capture fun _ => kind_ne_assign_of_mem_fromRelation

/-- The relation of a clause is read from its tokens. -/
lemma readRelation_fromRelation (d : Derivation) :
    Clause.readRelation d.fromRelation =
      .ok ((d.relation.map WrittenRelation.relation).getD .equal, d.fromReference) :=
  Clause.readRelation_tokens d.relation fun _ ht => (kind_of_mem_fromReference ht).1

/-- Where there is no reference, none is read. -/
lemma readTarget_fromCalls (d : Derivation) :
    Clause.readTarget d.fromCalls = (none, d.fromCalls) := by
  unfold fromCalls
  match d.calls, d.priority with
  | [], none => rfl
  | [], some (.step sign word _ isAt _ _) => simp [WrittenPriority.tokens, Clause.readTarget, isAt]
  | [], some (.number sign value isAt _ _) => simp [WrittenPriority.tokens, Clause.readTarget, isAt]
  | c :: calls, p =>
      have hsuper : c.name.text ≠ "super" := by
        rw [c.isName]
        cases c.kind <;> decide
      simp [Call.tokens, Clause.readTarget, c.isIdent, hsuper, Clause.startsWith, c.isOpen]

/-- What follows a target is not the bracket of a call. -/
lemma startsWith_fromCalls (d : Derivation) (r : Reference) :
    Clause.startsWith .parenOpen (optional WrittenAnchor.tokens r.anchor ++ d.fromCalls) =
      false := by
  unfold fromCalls
  match r.anchor, d.calls, d.priority with
  | some a, _, _ => simp [WrittenAnchor.tokens, Clause.startsWith, a.isDot]
  | none, c :: _, _ => simp [Call.tokens, Clause.startsWith, c.isIdent]
  | none, [], none => rfl
  | none, [], some (.step sign word _ isAt _ _) =>
      simp [WrittenPriority.tokens, Clause.startsWith, isAt]
  | none, [], some (.number sign value isAt _ _) =>
      simp [WrittenPriority.tokens, Clause.startsWith, isAt]

/-- Without a reference, the calls follow the relation. -/
lemma fromReference_none {d : Derivation} (h : d.reference = none) :
    d.fromReference = d.fromCalls := by
  simp [fromReference, h]

/-- A reference stands between the relation and the calls. -/
lemma fromReference_some {d : Derivation} {r : Reference} (h : d.reference = some r) :
    d.fromReference =
      r.target.token :: (optional WrittenAnchor.tokens r.anchor ++ d.fromCalls) := by
  simp [fromReference, h, Reference.tokens]

/-- No target is read where there is no reference. -/
lemma readTarget_fromReference_none {d : Derivation} (h : d.reference = none) :
    Clause.readTarget d.fromReference = (none, d.fromCalls) := by
  rw [fromReference_none h, readTarget_fromCalls]

/-- The target of a reference is read from its tokens. -/
lemma readTarget_fromReference_some {d : Derivation} (hshape : ∀ t ∈ d.fromReference, t.IsShaped)
    {r : Reference} (h : d.reference = some r) :
    Clause.readTarget d.fromReference =
      (some r.target.meaning, optional WrittenAnchor.tokens r.anchor ++ d.fromCalls) := by
  rw [fromReference_some h] at hshape ⊢
  exact Clause.readTarget_token r.target (hshape _ (by simp)) (startsWith_fromCalls d r)

/-- The anchor of a reference is read from its tokens. -/
lemma readTargetAnchor_fromCalls (d : Derivation) (r : Reference) :
    Clause.readTargetAnchor r.target.meaning
        (optional WrittenAnchor.tokens r.anchor ++ d.fromCalls) =
      .ok (r.anchor.map WrittenAnchor.anchor, d.fromCalls) :=
  Clause.readTargetAnchor_tokens r fun _ ht => (kind_of_mem_fromCalls ht).2.2

/-- The modifiers of a clause are read from its tokens. -/
lemma readModifiers_fromCalls (d : Derivation) (hshape : ∀ t ∈ d.fromCalls, t.IsShaped) :
    Clause.readModifiers d.fromCalls =
      .ok (d.calls.map Call.modifier, optional WrittenPriority.tokens d.priority) := by
  refine Clause.readModifiers_tokens d.calls (fun c hc => hshape _ ?_) ?_
  · exact List.mem_append_left _ (List.mem_flatMap.mpr ⟨c, hc, by simp [Call.tokens]⟩)
  · match d.priority with
    | none => rfl
    | some (.step sign word _ isAt _ _) => simp [WrittenPriority.tokens, Clause.startsWith, isAt]
    | some (.number sign value isAt _ _) => simp [WrittenPriority.tokens, Clause.startsWith, isAt]

/-- **What is derived is read.** The tokens of a derivation are read as the clause that it means. -/
theorem ofTokens_tokens (d : Derivation) (hshape : ∀ t ∈ d.tokens, t.IsShaped) :
    Clause.ofTokens d.tokens = .ok d.clause := by
  have hreference : ∀ t ∈ d.fromReference, t.IsShaped := fun t ht =>
    hshape t (by simp [tokens_eq, fromRelation, ht])
  have hcalls : ∀ t ∈ d.fromCalls, t.IsShaped := fun t ht =>
    hreference t (List.mem_append_right _ ht)
  have hpriority : ∀ t ∈ optional WrittenPriority.tokens d.priority, t.IsShaped := fun t ht =>
    hcalls t (List.mem_append_right _ ht)
  unfold Clause.ofTokens
  rw [readCapture_tokens]
  simp only [readRelation_fromRelation, bind, Except.bind]
  cases h : d.reference with
  | none =>
      simp only [readTarget_fromReference_none h, readModifiers_fromCalls d hcalls,
        Clause.readPriority_tokens d.priority hpriority]
      simp [clause, h]
  | some r =>
      simp only [readTarget_fromReference_some hreference h, readTargetAnchor_fromCalls,
        readModifiers_fromCalls d hcalls, Clause.readPriority_tokens d.priority hpriority]
      simp [clause, h]

end Derivation

/-! ### What is read is derived -/

namespace Clause

variable {ts rest : List Token}

/-- What is read as a capture was one, or there was none. -/
theorem exists_of_readCapture {name : Option String} (h : readCapture ts = (name, rest)) :
    ∃ c : Option Capture, ts = optional Capture.tokens c ++ rest := by
  unfold readCapture at h
  split at h
  · rename_i name sign _
    split at h
    · rename_i hkinds
      obtain ⟨-, rfl⟩ := Prod.mk.inj h
      exact ⟨some ⟨name, sign, hkinds.1, hkinds.2⟩, rfl⟩
    · exact ⟨none, (Prod.mk.inj h).2⟩
  · exact ⟨none, (Prod.mk.inj h).2⟩

/-- What is read as a relation was one, or there was none. -/
theorem exists_of_readRelation {r : Relation} (h : readRelation ts = .ok (r, rest)) :
    ∃ p : Option WrittenRelation, ts = optional WrittenRelation.tokens p ++ rest := by
  unfold readRelation at h
  split at h
  · exact ⟨none, (Prod.mk.inj (Except.ok.inj h)).2⟩
  · rename_i t _
    split at h
    · rename_i hkind
      split at h
      · rename_i r' htext
        obtain ⟨-, rfl⟩ := Prod.mk.inj (Except.ok.inj h)
        exact ⟨some ⟨t, r', hkind, Relation.ofText?_eq_some_iff.mp htext⟩, rfl⟩
      · cases h
    · exact ⟨none, (Prod.mk.inj (Except.ok.inj h)).2⟩

/-- Where no target is read, no token is taken. -/
lemma eq_of_readTarget_none (h : readTarget ts = (none, rest)) : ts = rest := by
  unfold readTarget at h
  grind

/-- What is read as a target was one. -/
theorem exists_of_readTarget_some (hshape : ∀ t ∈ ts, t.IsShaped) {target : Target}
    (h : readTarget ts = (some target, rest)) :
    ∃ p : WrittenTarget, ts = p.token :: rest ∧ p.meaning = target := by
  unfold readTarget at h
  split at h
  · cases h
  · rename_i t _
    split at h
    · rename_i hkind
      split at h
      · rename_i hsuper
        obtain ⟨rfl, rfl⟩ : Target.parent = target ∧ _ := by simpa using h
        exact ⟨.parent t hkind hsuper, rfl, rfl⟩
      · rename_i hsuper
        split at h
        · cases h
        · obtain ⟨rfl, rfl⟩ : Target.field t.text = target ∧ _ := by simpa using h
          exact ⟨.field t hkind hsuper, rfl, rfl⟩
    · rename_i hkind
      obtain ⟨name, hname⟩ := (Token.isShaped_layoutId hkind).mp (hshape t (by simp))
      obtain ⟨rfl, rfl⟩ : Target.id _ = target ∧ _ := by simpa using h
      exact ⟨.id t name hkind hname, rfl, by simp [WrittenTarget.meaning, hname]⟩
    · rename_i hkind
      rw [(hshape t (by simp)).ofText?_eq hkind] at h
      obtain ⟨rfl, rfl⟩ : Target.constant t.number = target ∧ _ := by simpa using h
      exact ⟨.constant t hkind, rfl, rfl⟩
    · cases h

/-- What is read as an anchor was one, and a constant has none. -/
theorem exists_of_readTargetAnchor {target : Target} {a : Option Anchor}
    (h : readTargetAnchor target ts = .ok (a, rest)) :
    ∃ p : Option WrittenAnchor, ts = optional WrittenAnchor.tokens p ++ rest ∧
      (target.isConstant = true → p = none) := by
  unfold readTargetAnchor at h
  split at h
  · exact ⟨none, (Prod.mk.inj (Except.ok.inj h)).2, fun _ => rfl⟩
  · rename_i point _
    split at h
    · rename_i hdot
      split at h
      · cases h
      · rename_i hconstant
        split at h
        · cases h
        · rename_i word _
          split at h
          · rename_i hident
            split at h
            · rename_i a hanchor
              obtain ⟨-, rfl⟩ := Prod.mk.inj (Except.ok.inj h)
              exact ⟨some ⟨point, word, a, hdot, hident, Anchor.ofKeyword?_eq_some_iff.mp hanchor⟩,
                rfl, fun h => absurd h hconstant⟩
            · cases h
          · cases h
    · exact ⟨none, (Prod.mk.inj (Except.ok.inj h)).2, fun _ => rfl⟩

/-- What is left out was a label, where the modifier takes one. -/
lemma exists_of_skipLabel (kind : ModifierKind) (ts : List Token) :
    ∃ label : Option Label, ts = optional Label.tokens label ++ skipLabel kind ts ∧
      (label.isSome = true → kind.takesLabel = true) := by
  unfold skipLabel
  split
  · rename_i word colon _
    split
    · rename_i hlabel
      obtain ⟨htakes, hident, hby, hcolon⟩ := hlabel
      exact ⟨some ⟨word, colon, hident, hby, hcolon⟩, rfl, fun _ => htakes⟩
    · exact ⟨none, rfl, by simp⟩
  · exact ⟨none, rfl, by simp⟩

/-- A modifier that is read is a call. -/
lemma exists_of_readArgument {name bracket : Token} (hident : name.kind = .ident)
    (hopen : bracket.kind = .parenOpen) (hshape : ∀ t ∈ ts, t.IsShaped) {kind : ModifierKind}
    (hname : ModifierKind.ofName? name.text = some kind)
    {r : { rest : List Token // rest.length ≤ ts.length }} {m : Modifier}
    (h : readArgument kind ts = .ok (r, m)) :
    ∃ c : Call, name :: bracket :: ts = c.tokens ++ r.val := by
  obtain ⟨t, close, v, hskip, hnumber, hvalue, hclose, hdivisor, rfl⟩ := readArgument_eq_ok_iff.mp h
  obtain ⟨label, hlabel, htakes⟩ := exists_of_skipLabel kind ts
  rw [hskip] at hlabel
  have hv := (hshape t (by simp [hlabel])).ofText?_eq hnumber
  obtain rfl : t.number = v := Option.some.inj (hv.symm.trans hvalue)
  refine ⟨⟨kind, name, bracket, label, t, close, hident, ModifierKind.ofName?_eq_some_iff.mp hname,
    hopen, htakes, hnumber, hclose, hdivisor⟩, ?_⟩
  simp only [Call.tokens, List.cons_append, List.append_assoc, List.nil_append, ← hlabel]

/-- What is read as modifiers were calls. -/
theorem exists_of_readModifiers (hshape : ∀ t ∈ ts, t.IsShaped) {ms : List Modifier}
    (h : readModifiers ts = .ok (ms, rest)) :
    ∃ calls : List Call, ts = calls.flatMap Call.tokens ++ rest := by
  induction ts using readModifiers.induct generalizing ms with
  | case1 =>
      rw [readModifiers] at h
      exact ⟨[], (Prod.mk.inj (Except.ok.inj h)).2⟩
  | case6 name hident bracket arguments hopen kind hname r m hargument ms' rest' hrest ih =>
      have hread : readModifiers (name :: bracket :: arguments) = .ok (m :: ms', rest') := by
        rw [readModifiers.eq_def]
        simp [*]
      obtain ⟨-, rfl⟩ := Prod.mk.inj (Except.ok.inj (hread.symm.trans h))
      obtain ⟨c, hc⟩ :=
        exists_of_readArgument hident hopen (fun t ht => hshape t (by simp [ht])) hname hargument
      have hbehind : ∀ t ∈ r.val, t.IsShaped := fun t ht => hshape t (by simp [hc, ht])
      obtain ⟨calls, hcalls⟩ := ih hbehind hrest
      exact ⟨c :: calls, by rw [hc, hcalls, List.flatMap_cons, List.append_assoc]⟩
  | case8 t others hkind =>
      rw [readModifiers.eq_def] at h
      simp only [hkind, if_false] at h
      exact ⟨[], (Prod.mk.inj (Except.ok.inj h)).2⟩
  | _ =>
      rw [readModifiers.eq_def] at h
      simp [*] at h

/-- What is read as a priority was one, or there was none. -/
theorem exists_of_readPriority (hshape : ∀ t ∈ ts, t.IsShaped) {q : Priority}
    (h : readPriority ts = .ok (q, rest)) :
    ∃ p : Option WrittenPriority, ts = optional WrittenPriority.tokens p ++ rest := by
  unfold readPriority at h
  split at h
  · exact ⟨none, (Prod.mk.inj (Except.ok.inj h)).2⟩
  · rename_i sign _
    split at h
    · rename_i hat
      split at h
      · cases h
      · rename_i value _
        split at h
        · rename_i hkind
          obtain ⟨p, hp, hpair⟩ := map_eq_ok.mp h
          obtain ⟨rfl, rfl⟩ := Prod.mk.inj hpair
          have hvalue := hshape value (by simp)
          obtain hname | ⟨hnot, v, hv, honScale, -⟩ := Priority.ofText_eq_ok_iff.mp hp
          · have hident : value.kind = .ident :=
              hkind.resolve_right fun hnumber => hvalue.not_mem_names hnumber p hname
            exact ⟨some (.step sign value p hat hident hname), rfl⟩
          · have hnumber : value.kind = .number := hkind.resolve_left fun hident => by
              rw [hvalue.not_onScale hident hv] at honScale
              cases honScale
            obtain rfl : value.single = v :=
              Option.some.inj ((hvalue.singleOfText?_eq hnumber).symm.trans hv)
            exact ⟨some (.number sign value hat hnumber honScale), rfl⟩
        · cases h
    · exact ⟨none, (Prod.mk.inj (Except.ok.inj h)).2⟩

end Clause

end ViewMarkup
