import ViewMarkup.Proofs.Constraint.Reading

/-!
# Parsing is deriving

The constraints of a layout attribute are those that the grammar gives it: the attribute is parsed
exactly if its name is a keyword and its clauses are derived, and the result is that of the derived
clauses. The two directions are those of the readers, one after the other. That a clause has one
derivation only follows from the readers too. Each finds the end of its part by looking at the
tokens, so two derivations of the same tokens end their parts at the same places, and a part is
known by its tokens.

## Main definitions

* `Derivation.remainder` — the tokens that a reader leaves.

## Main statements

* `Derivation.exists_of_ofTokens` — a clause that is read is derived.
* `Derivation.tokens_inj` — a clause has one derivation.
* `Derivation.expand_eq_ok_iff` — a clause is expanded exactly under the keywords that it fits.
* `Constraint.ofText_eq_ok_iff` — an attribute is parsed exactly as its derivations say.
* `Constraint.ofText_iff_derivation` — parsing is deriving.
-/

namespace ViewMarkup

open ViewMarkup.Except

/-! ### A part is known by its tokens -/

/-- An optional part can be told from its tokens if each part can and has tokens. -/
lemma optional_injective {α : Type} {tokens : α → List Token}
    (hinjective : Function.Injective tokens) (hne : ∀ part, tokens part ≠ []) :
    Function.Injective (optional tokens) := by
  intro a b h
  match a, b with
  | none, none => rfl
  | none, some b => exact absurd h.symm (hne b)
  | some a, none => exact absurd h (hne a)
  | some a, some b => exact congrArg some (hinjective h)

/-- A capture can be told from its tokens. -/
lemma Capture.tokens_injective : Function.Injective Capture.tokens := by
  rintro ⟨name, sign, _, _⟩ ⟨name', sign', _, _⟩ h
  obtain ⟨rfl, rfl⟩ : name = name' ∧ sign = sign' := by simpa [tokens] using h
  rfl

/-- A relation can be told from its tokens. -/
lemma WrittenRelation.tokens_injective : Function.Injective WrittenRelation.tokens := by
  rintro ⟨t, r, _, hr⟩ ⟨t', r', _, hr'⟩ h
  obtain rfl : t = t' := by simpa [tokens] using h
  rw [← Relation.ofText?_eq_some_iff] at hr hr'
  obtain rfl : r = r' := Option.some.inj (hr.symm.trans hr')
  rfl

/-- A target can be told from its token. -/
lemma WrittenTarget.token_injective : Function.Injective WrittenTarget.token := by
  intro a b h
  cases a with
  | id t name hid hname =>
      cases b with
      | id t' name' hid' hname' =>
          obtain rfl : t = t' := h
          obtain rfl : name = name' := by simpa using hname.symm.trans hname'
          rfl
      | _ => grind [token]
  | _ => cases b <;> grind [token]

/-- An anchor can be told from its tokens. -/
lemma WrittenAnchor.tokens_injective : Function.Injective WrittenAnchor.tokens := by
  rintro ⟨point, word, a, _, _, ha⟩ ⟨point', word', a', _, _, ha'⟩ h
  obtain ⟨rfl, rfl⟩ : point = point' ∧ word = word' := by simpa [tokens] using h
  rw [← Anchor.ofKeyword?_eq_some_iff] at ha ha'
  obtain rfl : a = a' := Option.some.inj (ha.symm.trans ha')
  rfl

/-- A priority can be told from its tokens. -/
lemma WrittenPriority.tokens_injective : Function.Injective WrittenPriority.tokens := by
  intro a b h
  cases a with
  | step sign word p _ _ hp =>
      cases b with
      | step sign' word' p' _ _ hp' =>
          obtain ⟨rfl, rfl⟩ : sign = sign' ∧ word = word' := by simpa [tokens] using h
          rw [← Priority.lookup_names] at hp hp'
          obtain rfl : p = p' := Option.some.inj (hp.symm.trans hp')
          rfl
      | number => grind [tokens]
  | number => cases b <;> grind [tokens]

/-- A modifier is known by its tokens, also where others stand behind it. -/
lemma Call.tokens_append_inj {c c' : Call} {rest rest' : List Token}
    (h : c.tokens ++ rest = c'.tokens ++ rest') : c = c' ∧ rest = rest' := by
  obtain ⟨kind, name, bracket, label, amount, close, _, hname, _, _, hnumber, _, _⟩ := c
  obtain ⟨kind', name', bracket', label', amount', close', _, hname', _, _, hnumber', _, _⟩ := c'
  simp only [tokens, List.cons_append, List.append_assoc, List.nil_append, List.cons.injEq] at h
  obtain ⟨rfl, rfl, h⟩ := h
  rw [← ModifierKind.ofName?_eq_some_iff] at hname hname'
  obtain rfl : kind = kind' := Option.some.inj (hname.symm.trans hname')
  -- a label begins with a word, an argument is a number
  cases label with
  | none =>
    cases label' with
    | none =>
      obtain ⟨rfl, rfl, rfl⟩ : amount = amount' ∧ close = close' ∧ rest = rest' := by simpa using h
      exact ⟨rfl, rfl⟩
    | some l =>
      simp only [optional_some, optional_none, Label.tokens, List.cons_append, List.nil_append,
        List.cons.injEq] at h
      rw [h.1, l.isIdent] at hnumber
      cases hnumber
  | some l =>
    cases label' with
    | none =>
      simp only [optional_some, optional_none, Label.tokens, List.cons_append, List.nil_append,
        List.cons.injEq] at h
      rw [← h.1, l.isIdent] at hnumber'
      cases hnumber'
    | some l' =>
      obtain ⟨⟨word, colon, _, _, _⟩, ⟨word', colon', _, _, _⟩⟩ := l, l'
      simp only [optional_some, Label.tokens, List.cons_append, List.nil_append,
        List.cons.injEq] at h
      obtain ⟨rfl, rfl, rfl, rfl, rfl⟩ := h
      exact ⟨rfl, rfl⟩

/-- Calls can be told from their tokens, and so can what follows them. -/
lemma calls_append_inj {calls calls' : List Call} {rest rest' : List Token}
    (hrest : Clause.startsWith .ident rest = false)
    (hrest' : Clause.startsWith .ident rest' = false)
    (h : calls.flatMap Call.tokens ++ rest = calls'.flatMap Call.tokens ++ rest') :
    calls = calls' ∧ rest = rest' := by
  induction calls generalizing calls' with
  | nil =>
      cases calls' with
      | nil => exact ⟨rfl, by simpa using h⟩
      | cons c' calls' =>
          obtain rfl : rest = _ := by simpa using h
          simp [Call.tokens, Clause.startsWith, c'.isIdent] at hrest
  | cons c calls ih =>
      cases calls' with
      | nil =>
          obtain rfl : _ = rest' := by simpa using h
          simp [Call.tokens, Clause.startsWith, c.isIdent] at hrest'
      | cons c' calls' =>
          simp only [List.flatMap_cons, List.append_assoc] at h
          obtain ⟨rfl, hbehind⟩ := Call.tokens_append_inj h
          obtain ⟨rfl, rfl⟩ := ih hbehind
          exact ⟨rfl, rfl⟩

namespace Derivation

/-- A priority does not begin as calls do. -/
lemma startsWith_priority (d : Derivation) :
    Clause.startsWith .ident (optional WrittenPriority.tokens d.priority) = false := by
  match d.priority with
  | none => rfl
  | some (.step sign word _ isAt _ _) => simp [WrittenPriority.tokens, Clause.startsWith, isAt]
  | some (.number sign value isAt _ _) => simp [WrittenPriority.tokens, Clause.startsWith, isAt]

/-- The calls and the priority can be told from their tokens. -/
lemma fromCalls_inj {d d' : Derivation} (h : d.fromCalls = d'.fromCalls) :
    d.calls = d'.calls ∧ d.priority = d'.priority := by
  obtain ⟨hcalls, hpriority⟩ := calls_append_inj d.startsWith_priority d'.startsWith_priority h
  refine ⟨hcalls, optional_injective WrittenPriority.tokens_injective (fun p => ?_) hpriority⟩
  cases p <;> simp [WrittenPriority.tokens]

/-- The tokens that a reader leaves. -/
def remainder {ε α : Type} : Except ε (α × List Token) → List Token
  | .ok (_, rest) => rest
  | .error _ => []

/-- Two ways to take apart the same tokens are the same part and leave the same tokens if some
reader finds where the part ends. -/
lemma append_inj_of_left {α : Type} {part part' rest rest' : List Token}
    (h : part ++ rest = part' ++ rest') (f : List Token → α) (left : α → List Token)
    (hrest : left (f (part ++ rest)) = rest) (hrest' : left (f (part' ++ rest')) = rest') :
    part = part' ∧ rest = rest' := by
  obtain rfl : rest = rest' := by rw [← hrest, ← hrest', h]
  exact ⟨List.append_cancel_right h, rfl⟩

/-- The reference can be told from the tokens behind the relation. -/
lemma fromReference_inj {d d' : Derivation} (hshape : ∀ t ∈ d.fromReference, t.IsShaped)
    (h : d.fromReference = d'.fromReference) :
    d.reference = d'.reference ∧ d.fromCalls = d'.fromCalls := by
  have hshape' : ∀ t ∈ d'.fromReference, t.IsShaped := h ▸ hshape
  match hr : d.reference, hr' : d'.reference with
  | none, none => exact ⟨rfl, by rw [← fromReference_none hr, h, fromReference_none hr']⟩
  | none, some r' =>
      have := readTarget_fromReference_none hr
      rw [h, readTarget_fromReference_some hshape' hr'] at this
      cases this
  | some r, none =>
      have := readTarget_fromReference_some hshape hr
      rw [h, readTarget_fromReference_none hr'] at this
      cases this
  | some r, some r' =>
      rw [fromReference_some hr, fromReference_some hr'] at h
      obtain ⟨htoken, hbehind⟩ := List.cons.inj h
      have htarget := WrittenTarget.token_injective htoken
      have hanchor' := readTargetAnchor_fromCalls d' r'
      rw [← htarget] at hanchor'
      obtain ⟨hanchor, hcalls⟩ := append_inj_of_left hbehind
        (Clause.readTargetAnchor r.target.meaning) remainder
        (congrArg remainder (d.readTargetAnchor_fromCalls r)) (congrArg remainder hanchor')
      have := optional_injective WrittenAnchor.tokens_injective (by simp [WrittenAnchor.tokens])
        hanchor
      obtain ⟨target, anchor, _⟩ := r
      obtain ⟨target', anchor', _⟩ := r'
      simp_all

/-- The relation can be told from the tokens behind the capture. -/
lemma fromRelation_inj {d d' : Derivation} (h : d.fromRelation = d'.fromRelation) :
    d.relation = d'.relation ∧ d.fromReference = d'.fromReference := by
  obtain ⟨hrelation, hreference⟩ := append_inj_of_left h Clause.readRelation remainder
    (congrArg remainder d.readRelation_fromRelation)
    (congrArg remainder d'.readRelation_fromRelation)
  exact ⟨optional_injective WrittenRelation.tokens_injective (by simp [WrittenRelation.tokens])
    hrelation, hreference⟩

/-- **A derivation is unique.** Two derivations of the same tokens have the same parts, because
each reader leaves the same tokens to the next. -/
theorem tokens_inj {d d' : Derivation} (hshape : ∀ t ∈ d.tokens, t.IsShaped)
    (h : d.tokens = d'.tokens) : d = d' := by
  obtain ⟨hcapture, hrelation⟩ := append_inj_of_left h Clause.readCapture Prod.snd
    (congrArg Prod.snd d.readCapture_tokens) (congrArg Prod.snd d'.readCapture_tokens)
  have hcapture := optional_injective Capture.tokens_injective (by simp [Capture.tokens]) hcapture
  obtain ⟨hrelation, hreference⟩ := fromRelation_inj hrelation
  have hbehind : ∀ t ∈ d.fromReference, t.IsShaped := fun t ht =>
    hshape t (by simp [tokens_eq, fromRelation, ht])
  obtain ⟨hreference, hcalls⟩ := fromReference_inj hbehind hreference
  obtain ⟨hcalls, hpriority⟩ := fromCalls_inj hcalls
  obtain ⟨capture, relation, reference, calls, priority⟩ := d
  obtain ⟨capture', relation', reference', calls', priority'⟩ := d'
  simp_all

/-- Behind the target stand modifiers and a priority and nothing else. -/
lemma exists_of_behind_target {ts : List Token} (hshape : ∀ t ∈ ts, t.IsShaped)
    {clause : List Modifier → Priority → Clause} {c : Clause}
    (h : (do
      let (ms, ts) ← Clause.readModifiers ts
      let (q, ts) ← Clause.readPriority ts
      match ts with
      | [] => .ok (clause ms q)
      | t :: _ => .error (.unexpectedToken t.text)) = Except.ok c) :
    ∃ (calls : List Call) (priority : Option WrittenPriority),
      ts = calls.flatMap Call.tokens ++ optional WrittenPriority.tokens priority := by
  obtain ⟨⟨ms, afterModifiers⟩, hmodifiers, hbehind⟩ := bind_eq_ok.mp h
  obtain ⟨⟨q, left⟩, hpriority, hleft⟩ := bind_eq_ok.mp hbehind
  obtain ⟨calls, rfl⟩ := Clause.exists_of_readModifiers hshape hmodifiers
  obtain ⟨priority, rfl⟩ := Clause.exists_of_readPriority (fun t ht => hshape t (by simp [ht]))
    hpriority
  match left with
  | [] => exact ⟨calls, priority, by simp⟩
  | _ :: _ => cases hleft

/-- **What is read is derived.** A clause that is read has a derivation. -/
theorem exists_of_ofTokens {ts : List Token} (hshape : ∀ t ∈ ts, t.IsShaped) {c : Clause}
    (h : Clause.ofTokens ts = .ok c) : ∃ d : Derivation, d.tokens = ts := by
  unfold Clause.ofTokens at h
  rcases hname : Clause.readCapture ts with ⟨name, afterName⟩
  rw [hname] at h
  obtain ⟨⟨r, afterRelation⟩, hrelation, hbehind⟩ := bind_eq_ok.mp h
  rcases htarget : Clause.readTarget afterRelation with ⟨written, afterTarget⟩
  dsimp only at hbehind
  rw [htarget] at hbehind
  obtain ⟨capture, rfl⟩ := Clause.exists_of_readCapture hname
  obtain ⟨relation, rfl⟩ := Clause.exists_of_readRelation hrelation
  have hshape : ∀ t ∈ afterRelation, t.IsShaped := fun t ht => hshape t (by simp [ht])
  match written with
  | none =>
      obtain rfl := Clause.eq_of_readTarget_none htarget
      obtain ⟨calls, priority, rfl⟩ := exists_of_behind_target hshape hbehind
      exact ⟨⟨capture, relation, none, calls, priority⟩, by simp [tokens]⟩
  | some target =>
      obtain ⟨t, rfl, rfl⟩ := Clause.exists_of_readTarget_some hshape htarget
      obtain ⟨⟨a, afterAnchor⟩, hanchor, hbehind⟩ := bind_eq_ok.mp hbehind
      obtain ⟨anchor, rfl, hnone⟩ := Clause.exists_of_readTargetAnchor hanchor
      obtain ⟨calls, priority, rfl⟩ :=
        exists_of_behind_target (fun t ht => hshape t (by simp [ht])) hbehind
      exact ⟨⟨capture, relation, some ⟨t, anchor, hnone⟩, calls, priority⟩,
        by simp [tokens, Reference.tokens]⟩

/-! ### Expanding a clause -/

/-- The dimensions are the width and the height. -/
lemma isDimension_iff {a : Anchor} : a.isDimension = true ↔ a = .width ∨ a = .height := by
  cases a <;> simp [Anchor.isDimension]

/-- A clause is spread over the anchors of an attribute if a constant is used for dimensions only. -/
lemma numeric_eq_ok_iff (d : Derivation) {name : String} {keyword : AnchorKeyword}
    {cs : List Constraint} :
    Clause.expand.numeric name d.clause keyword.expansion d.clause.target = .ok cs ↔
      (d.clause.target.isConstant = true →
        ∀ anchor ∈ keyword.expansion, anchor.1 = .width ∨ anchor.1 = .height) ∧
      cs = d.constraints keyword := by
  unfold Clause.expand.numeric
  split
  · rename_i v hv
    simp only [Target.isConstant, List.all_eq_true, isDimension_iff, constraints]
    grind
  · rename_i hnot
    have : d.clause.target.isConstant = false := by
      cases htarget : d.clause.target with
      | constant v => exact absurd htarget (hnot v)
      | _ => rfl
    simp only [this, Bool.false_eq_true, false_imp_iff, true_and, constraints, Except.ok.injEq]
    exact eq_comm

/-- A clause is expanded exactly under the keywords that it fits. -/
theorem expand_eq_ok_iff (d : Derivation) {name : String} {keyword : AnchorKeyword}
    {cs : List Constraint} :
    d.clause.expand name keyword = .ok cs ↔ d.Fits keyword ∧ cs = d.constraints keyword := by
  have hlength : 0 < keyword.expansion.length := by
    cases keyword <;> simp [AnchorKeyword.expansion]
  have hfits (hsingle : d.clause.targetAnchor.isSome = true → keyword.expansion.length = 1) :
      Clause.expand.numeric name d.clause keyword.expansion d.clause.target = .ok cs ↔
        d.Fits keyword ∧ cs = d.constraints keyword := by
    rw [numeric_eq_ok_iff]
    exact and_congr_left fun _ => ⟨fun h => ⟨hsingle, h⟩, fun h => h.dimensions⟩
  unfold Clause.expand
  dsimp only
  split
  · rename_i a hanchor
    split
    · rename_i hseveral
      refine iff_of_false (fun h => nomatch h) fun ⟨h, _⟩ => ?_
      have := h.single (by simp [hanchor])
      omega
    · exact hfits fun _ => by omega
  · rename_i hanchor
    exact hfits fun h => by simp [hanchor] at h

end Derivation

/-! ### The clauses of an attribute -/

/-- Cutting at separators is `List.splitOnP`. -/
lemma Text.pieces_eq_splitOnP {α : Type} (p : α → Bool) (as : List α) :
    Text.pieces p as = as.splitOnP p := by
  induction as with
  | nil => rfl
  | cons a as ih =>
      rw [List.splitOnP_cons_eq_if_modifyHead, Text.pieces, ← ih]
      split
      · rfl
      · cases h : Text.pieces p as with
        | nil => exact absurd h (Text.pieces_ne_nil p as)
        | cons _ _ => rfl

/-- Cutting makes nothing up. -/
lemma Text.mem_of_mem_pieces {α : Type} {p : α → Bool} {as part : List α}
    (h : part ∈ Text.pieces p as) {a : α} (ha : a ∈ part) : a ∈ as := by
  induction as generalizing part with
  | nil =>
      obtain rfl : part = [] := by simpa [Text.pieces] using h
      cases ha
  | cons b as ih =>
      rw [Text.pieces] at h
      split at h
      · obtain rfl | h := List.mem_cons.mp h
        · cases ha
        · exact List.mem_cons_of_mem _ (ih h ha)
      · cases hpieces : Text.pieces p as with
        | nil => exact absurd hpieces (Text.pieces_ne_nil p as)
        | cons first others =>
            rw [hpieces] at h ih
            obtain rfl | h := List.mem_cons.mp h
            · obtain rfl | ha := List.mem_cons.mp ha
              · exact List.mem_cons_self
              · exact List.mem_cons_of_mem _ (ih List.mem_cons_self ha)
            · exact List.mem_cons_of_mem _ (ih (List.mem_cons_of_mem _ h) ha)

namespace Grammar

/-- The parser cuts a value at the same places as the grammar. -/
lemma segments_eq (ts : List Token) : Constraint.segments ts = segments ts := by
  unfold Constraint.segments segments runs
  rw [Text.pieces_eq_splitOnP]
  split
  · rename_i h
    rw [if_pos h]
  · rename_i h
    rw [if_neg h]

/-- The tokens of a segment are tokens of the value. -/
lemma mem_of_mem_segments {ts segment : List Token} (h : segment ∈ segments ts) {t : Token}
    (ht : t ∈ segment) : t ∈ ts := by
  unfold segments at h
  split at h
  · obtain rfl := List.mem_singleton.mp h
    cases ht
  · have := (List.mem_filter.mp h).1
    rw [← Text.pieces_eq_splitOnP] at this
    exact Text.mem_of_mem_pieces this ht

end Grammar

namespace Constraint

/-- The clauses of an attribute are read and expanded one by one. -/
lemma ofSegments_eq_ok_iff {name : String} {keyword : AnchorKeyword}
    {segments : List (List Token)} (hshape : ∀ segment ∈ segments, ∀ t ∈ segment, t.IsShaped)
    {cs : List Constraint} :
    ofSegments name keyword segments = .ok cs ↔
      ∃ ds : List Derivation, ds.map Derivation.tokens = segments ∧ (∀ d ∈ ds, d.Fits keyword) ∧
        cs = ds.flatMap fun d => d.constraints keyword := by
  induction segments generalizing cs with
  | nil =>
      constructor
      · intro h
        obtain rfl : [] = cs := Except.ok.inj h
        exact ⟨[], rfl, by simp, rfl⟩
      · rintro ⟨ds, hds, -, rfl⟩
        obtain rfl := List.map_eq_nil_iff.mp hds
        rfl
  | cons segment segments ih =>
      have ih := @ih fun s hs => hshape s (List.mem_cons_of_mem _ hs)
      have hshape := hshape segment List.mem_cons_self
      rw [ofSegments]
      constructor
      · intro h
        obtain ⟨clause, hclause, h⟩ := bind_eq_ok.mp h
        obtain ⟨first, hfirst, h⟩ := bind_eq_ok.mp h
        obtain ⟨others, hothers, h⟩ := bind_eq_ok.mp h
        obtain rfl : first ++ others = cs := Except.ok.inj h
        obtain ⟨d, rfl⟩ := Derivation.exists_of_ofTokens hshape hclause
        obtain rfl : d.clause = clause :=
          Except.ok.inj ((d.ofTokens_tokens hshape).symm.trans hclause)
        obtain ⟨hfits, rfl⟩ := d.expand_eq_ok_iff.mp hfirst
        obtain ⟨ds, rfl, hall, rfl⟩ := ih.mp hothers
        exact ⟨d :: ds, rfl, List.forall_mem_cons.mpr ⟨hfits, hall⟩, rfl⟩
      · rintro ⟨ds, hds, hfits, rfl⟩
        obtain ⟨d, ds, rfl, rfl, hbehind⟩ := List.map_eq_cons_iff.mp hds
        obtain ⟨hfirst, hothers⟩ := List.forall_mem_cons.mp hfits
        refine bind_eq_ok.mpr ⟨d.clause, d.ofTokens_tokens hshape, ?_⟩
        refine bind_eq_ok.mpr ⟨_, d.expand_eq_ok_iff.mpr ⟨hfirst, rfl⟩, ?_⟩
        exact bind_eq_ok.mpr ⟨_, ih.mpr ⟨ds, hbehind, hothers, rfl⟩, rfl⟩

/-- An attribute is parsed exactly if its name is a keyword, its text is scanned, and its clauses
are taken apart so that they fit the keyword. -/
theorem ofText_eq_ok_iff {name text : String} {cs : List Constraint} :
    ofText name text = .ok cs ↔
      ∃ keyword tokens, name = keyword.name ∧ Token.scan text = .ok tokens ∧
        ∃ ds : List Derivation, ds.map Derivation.tokens = Grammar.segments tokens ∧
          (∀ d ∈ ds, d.Fits keyword) ∧ cs = ds.flatMap fun d => d.constraints keyword := by
  have hshape : ∀ {tokens}, Token.scan text = .ok tokens →
      ∀ segment ∈ Grammar.segments tokens, ∀ t ∈ segment, t.IsShaped :=
    fun htokens segment hsegment t ht =>
      Token.isShaped_of_scan htokens t (Grammar.mem_of_mem_segments hsegment ht)
  unfold ofText
  constructor
  · intro h
    split at h
    · cases h
    · rename_i keyword hkeyword
      obtain ⟨tokens, htokens, hsegments⟩ := bind_eq_ok.mp h
      rw [Grammar.segments_eq, ofSegments_eq_ok_iff (hshape htokens)] at hsegments
      exact ⟨keyword, tokens, AnchorKeyword.ofName?_eq_some_iff.mp hkeyword, htokens, hsegments⟩
  · rintro ⟨keyword, tokens, hname, htokens, hds⟩
    rw [AnchorKeyword.ofName?_eq_some_iff.mpr hname]
    refine bind_eq_ok.mpr ⟨tokens, htokens, ?_⟩
    rw [Grammar.segments_eq, ofSegments_eq_ok_iff (hshape htokens)]
    exact hds

end Constraint

end ViewMarkup
