import Mathlib
import ViewMarkup.Proofs.Constraint.Longest
import ViewMarkup.Proofs.Constraint.Parsing

/-!
# Values with a semicolon between them

The clauses of a layout attribute are read one by one, and no clause can tell what stands before or behind
it. So two values that are joined by a semicolon say what they say apart. A semicolon is a token by itself
and goes into no other one, hence the scanner finds the same tokens on both sides of it, only further
behind on the right one; and no reader asks where a token stands.

## Main definitions

* `Token.moved`, `LayoutError.moved` — a token and an error of a text behind some bytes.
* `Constraint.IsVoid` — a value has nothing in it but blanks and semicolons.

## Main statements

* `Token.scan_append_semicolon` — a scan of two texts with a semicolon between them.
* `Clause.ofTokens_moved` — a clause is the same wherever its tokens stand.
* `Constraint.ofText_append_semicolon` — the constraints of two values with a semicolon between them.
-/

namespace ViewMarkup

open Text ViewMarkup.Except

/-! ### No token goes over a semicolon -/

namespace TokenKind

variable {kind : TokenKind} {c : Char} {v w rest : List Char}

/-- A list whose members all pass a test has no member that fails it. -/
lemma not_mem_of_forall {p : Char → Bool} {d : Char} (h : ∀ e ∈ v, p e = true) (hd : p d = false) :
    d ∉ v := by
  intro hv
  rw [h d hv] at hd
  cases hd

/-- A number has no semicolon in it. -/
lemma not_mem_of_isNumeral (h : IsNumeral w) : ';' ∉ w := by
  have inDigits {ds : List Char} (hds : ∀ d ∈ ds, d.isDigit = true) : ';' ∉ ds :=
    not_mem_of_forall hds (by decide)
  obtain ⟨whole, fraction, ⟨-, hw⟩, hf, hsign⟩ := h
  have hfraction : ';' ∉ fraction := by
    obtain rfl | ⟨places, ⟨-, hp⟩, rfl⟩ := hf
    · exact List.not_mem_nil
    · exact List.not_mem_cons_of_ne_of_not_mem (by decide) (inDigits hp)
  have hbody : ';' ∉ whole ++ fraction := by
    rw [List.mem_append, not_or]
    exact ⟨inDigits hw, hfraction⟩
  obtain rfl | rfl := hsign
  · exact hbody
  · exact List.not_mem_cons_of_ne_of_not_mem (by decide) hbody

/-- **No token goes over a semicolon.** -/
theorem semicolon_not_mem (h : kind.Matches (c :: v)) : ';' ∉ v := by
  have word {ds : List Char} (hds : ∀ d ∈ ds, isWordPart d = true) : ';' ∉ ds :=
    not_mem_of_forall hds (by decide)
  cases kind with
  | number => exact fun hv => not_mem_of_isNumeral (matches_number.1 h) (List.mem_cons_of_mem _ hv)
  | ident => exact word (forall_isWordPart_of_matches h)
  | layoutId =>
    obtain ⟨-, d, name, rfl, hd, hname⟩ := exists_of_matches_layoutId h
    have hall : ∀ e ∈ d :: name, isWordPart e = true :=
      List.forall_mem_cons.2 ⟨isWordPart_of_isWordStart hd, hname⟩
    exact List.not_mem_cons_of_ne_of_not_mem (by decide)
      (List.not_mem_cons_of_ne_of_not_mem (by decide) (word hall))
  | relationKeyword =>
    obtain ⟨d, name, hd, hname, he⟩ := matches_relationKeyword.1 h
    rw [(List.cons.inj he).2]
    exact not_mem_of_forall (List.forall_mem_cons.2 ⟨hd, hname⟩) (by decide)
  | equalEqual | lessEqual | greaterEqual | assign | dot | atSign | parenOpen | parenClose | colon
  | comma | semicolon =>
    obtain ⟨-, rfl⟩ := List.cons.inj h
    decide

/-- What begins before a semicolon and fits a pattern ends before it. -/
lemma isPrefix_of_matches {cs ds : List Char} (hv : v <+: cs ++ ';' :: ds)
    (h : kind.Matches (c :: v)) : v <+: cs := by
  obtain ⟨rest, hrest⟩ := hv
  obtain ⟨more, rfl, -⟩ | ⟨more, rfl, hmore⟩ := List.append_eq_append_iff.1 hrest
  · exact List.prefix_append v more
  · cases more with
    | nil => exact (List.append_nil cs).symm ▸ List.prefix_refl cs
    | cons d more =>
      obtain ⟨rfl, -⟩ := List.cons.inj hmore
      exact absurd (List.mem_append_right cs List.mem_cons_self) (semicolon_not_mem h)

/-- The longest text at a position stays so when a semicolon is put behind what follows. -/
lemma IsLongest.append_semicolon (h : kind.IsLongest w rest) (ds : List Char) :
    kind.IsLongest w (rest ++ ';' :: ds) where
  fits := h.fits
  longest kind' w' hw' hm := by
    obtain ⟨c, v, rfl, -⟩ := exists_cons_of_matches h.fits
    obtain ⟨c', v', rfl, -⟩ := exists_cons_of_matches hm
    rw [List.cons_append, List.cons_prefix_cons, ← List.append_assoc] at hw'
    obtain ⟨rfl, hv'⟩ := hw'
    exact h.longest kind' _ (List.cons_prefix_cons.2 ⟨rfl, isPrefix_of_matches hv' hm⟩) hm
  only := h.only

/-- Where no token begins, none begins when a semicolon follows. -/
lemma NothingAt.append_semicolon (h : NothingAt c rest) (ds : List Char) :
    NothingAt c (rest ++ ';' :: ds) :=
  ⟨h.1, fun kind _ hv hm => h.2 kind _ (isPrefix_of_matches hv hm) hm⟩

end TokenKind

/-! ### Scanning on both sides of a semicolon -/

namespace LayoutError

/-- An error of a text that stands behind some bytes. -/
def moved (bytes : Nat) : LayoutError → LayoutError
  | unexpectedCharacter c position => unexpectedCharacter c (bytes + position)
  | e => e

end LayoutError

namespace Token

open TokenKind

/-- A token of a text that stands behind some bytes. -/
def moved (bytes : Nat) (t : Token) : Token := { t with offset := bytes + t.offset }

/-- A token that is moved keeps its kind. -/
@[simp]
lemma moved_kind (bytes : Nat) (t : Token) : (t.moved bytes).kind = t.kind := rfl

/-- It keeps its text as well. -/
@[simp]
lemma moved_text (bytes : Nat) (t : Token) : (t.moved bytes).text = t.text := rfl

/-- The semicolon at an offset. -/
def semicolonAt (offset : Nat) : Token := ⟨.semicolon, ";", offset⟩

variable {o o' : Nat} {cs rest : List Char} {ts : List Token}

/-- What is scanned in front of a remainder is scanned so when a semicolon follows the remainder. -/
lemma Reads.append_semicolon (h : Reads o cs ts o' rest) (ds : List Char) :
    Reads o (cs ++ ';' :: ds) ts o' (rest ++ ';' :: ds) := by
  induction h with
  | here => exact .here
  | space hspace _ ih => exact .space hspace ih
  | token hl _ ih =>
    rw [List.append_assoc]
    exact .token (hl.append_semicolon ds) ih

/-- A scan that begins further behind finds the same tokens further behind. -/
lemma scanFrom_add (bytes o : Nat) (cs : List Char) :
    scanFrom (bytes + o) cs =
      ((scanFrom o cs).map (List.map (moved bytes))).mapError (LayoutError.moved bytes) := by
  induction o, cs using scanFrom.induct with
  | case1 => rw [scanFrom, scanFrom]; rfl
  | case2 o c cs hspace ih =>
    rw [scanFrom, scanFrom, if_pos hspace, if_pos hspace, Nat.add_assoc, ih]
  | case3 o c cs hspace hlongest =>
    rw [scanFrom, scanFrom, if_neg hspace, if_neg hspace, hlongest]
    rfl
  | case4 o c cs hspace kind n hlongest lexeme e hrest ih =>
    rw [scanFrom, scanFrom, if_neg hspace, if_neg hspace, hlongest]
    dsimp only
    rw [Nat.add_assoc, ih, hrest]
    rfl
  | case5 o c cs hspace kind n hlongest lexeme tokens hrest ih =>
    rw [scanFrom, scanFrom, if_neg hspace, if_neg hspace, hlongest]
    dsimp only
    rw [Nat.add_assoc, ih, hrest]
    rfl

/-- A semicolon is a token by itself. -/
lemma scanFrom_semicolon (o : Nat) (ds : List Char) :
    scanFrom o (';' :: ds) = (scanFrom (o + 1) ds).map (semicolonAt o :: ·) := by
  rw [scanFrom, if_neg (by decide), longest?]
  simp only [List.take_zero, List.drop_zero]
  have hbyte : o + byteLength [';'] = o + 1 := rfl
  rw [hbyte]
  cases scanFrom (o + 1) ds <;> rfl

/-- **Scanning on both sides of a semicolon.** What is on the left of it is scanned as if it stood alone,
then come the semicolon and the tokens on its right, behind the bytes on its left. -/
theorem scan_append_semicolon (v w : String) :
    scan (v ++ ";" ++ w) = (do
      let tokens ← scan v
      let others ← (scan w).mapError (LayoutError.moved (byteLength v.toList + 1))
      .ok (tokens ++ semicolonAt (byteLength v.toList) ::
        others.map (moved (byteLength v.toList + 1)))) := by
  obtain ⟨ts, o, rest, hread, hend⟩ := exists_reads 0 v.toList
  have htext : (v ++ ";" ++ w).toList = v.toList ++ ';' :: w.toList := by simp
  have hjoined := (hread.append_semicolon w.toList).scanFrom_eq
  rw [scan, scan, htext, hjoined, hread.scanFrom_eq]
  cases rest with
  | nil =>
    obtain ⟨u, hu, ho⟩ := hread.exists_append
    obtain rfl : o = byteLength v.toList := by rw [hu, List.append_nil, ho, Nat.zero_add]
    rw [List.nil_append, scanFrom_semicolon, scanFrom_add _ 0, scanFrom, scan]
    cases scanFrom 0 w.toList with
    | error e => rfl
    | ok us => simp [bind, Except.bind, Except.map, Except.mapError]
  | cons c more =>
    have hnothing := hend c more rfl
    rw [List.cons_append, scanFrom_eq_of_nothingAt (hnothing.append_semicolon w.toList),
      scanFrom_eq_of_nothingAt hnothing]
    rfl

end Token

/-! ### No reader asks where a token stands -/

namespace Clause

/-- What was read, with the tokens behind it further behind. -/
def carried {α : Type} (bytes : Nat) : α × List Token → α × List Token :=
  Prod.map id (List.map (Token.moved bytes))

variable (bytes : Nat)

/-- The kind of the first token does not depend on where it stands. -/
lemma startsWith_moved (kind : TokenKind) (ts : List Token) :
    startsWith kind (ts.map (Token.moved bytes)) = startsWith kind ts := by
  cases ts <;> rfl

/-- A capture is read wherever its tokens stand. -/
lemma readCapture_moved (ts : List Token) :
    readCapture (ts.map (Token.moved bytes)) = carried bytes (readCapture ts) := by
  match ts with
  | [] | [_] => rfl
  | name :: sign :: rest =>
    by_cases h : name.kind = .ident ∧ sign.kind = .assign <;> simp [readCapture, h, carried]

/-- So is a relation. -/
lemma readRelation_moved (ts : List Token) :
    readRelation (ts.map (Token.moved bytes)) = (readRelation ts).map (carried bytes) := by
  cases ts with
  | nil => rfl
  | cons t rest =>
    by_cases h : isRelation t.kind = true
    · cases hr : Relation.ofText? t.text <;> simp [readRelation, h, hr, carried, Except.map]
    · simp [readRelation, h, carried, Except.map]

/-- So is a target. -/
lemma readTarget_moved (ts : List Token) :
    readTarget (ts.map (Token.moved bytes)) = carried bytes (readTarget ts) := by
  cases ts with
  | nil => rfl
  | cons t rest =>
    cases hkind : t.kind with
    | ident =>
      by_cases hsuper : t.text = "super"
      · simp [readTarget, hkind, hsuper, carried]
      · cases hopen : startsWith .parenOpen rest <;>
          simp [readTarget, hkind, hsuper, hopen, startsWith_moved, carried]
    | number => cases hn : Number.ofText? t.text <;> simp [readTarget, hkind, hn, carried]
    | _ => simp [readTarget, hkind, carried]

/-- So is the anchor of a target. -/
lemma readTargetAnchor_moved (target : Target) (ts : List Token) :
    readTargetAnchor target (ts.map (Token.moved bytes)) =
      (readTargetAnchor target ts).map (carried bytes) := by
  cases ts with
  | nil => rfl
  | cons t rest =>
    by_cases hdot : t.kind = .dot
    · cases hc : target.isConstant with
      | true => simp [readTargetAnchor, hdot, hc, Except.map]
      | false =>
        cases rest with
        | nil => simp [readTargetAnchor, hdot, hc, Except.map]
        | cons name rest =>
          by_cases hident : name.kind = .ident
          · cases ha : Anchor.ofKeyword? name.text <;>
              simp [readTargetAnchor, hdot, hc, hident, ha, carried, Except.map]
          · simp [readTargetAnchor, hdot, hc, hident, Except.map]
    · simp [readTargetAnchor, hdot, carried, Except.map]

/-- So is the label of a modifier left out. -/
lemma skipLabel_moved (kind : ModifierKind) (ts : List Token) :
    skipLabel kind (ts.map (Token.moved bytes)) = (skipLabel kind ts).map (Token.moved bytes) := by
  match ts with
  | [] | [_] => rfl
  | label :: colon :: rest =>
    by_cases h : kind.takesLabel ∧ label.kind = .ident ∧ label.text = "by" ∧ colon.kind = .colon <;>
      simp [skipLabel, h]

/-- The number that a token is. -/
def number? (t : Token) : Option Float := if t.kind = .number then Number.ofText? t.text else none

/-- The number in a token does not depend on where the token stands. -/
lemma number?_moved (t : Token) : number? (t.moved bytes) = number? t := rfl

/-- The argument of a modifier behind its label, read in the way of the other readers. -/
def readAmount (kind : ModifierKind) : List Token → Except LayoutError (Modifier × List Token)
  | [] => .error (.unexpectedEnd ("expected argument for `" ++ kind.name ++ "`"))
  | t :: rest =>
      match number? t with
      | none => .error (.invalidModifier kind.name t.text)
      | some amount =>
          match rest with
          | [] => .error (.unexpectedEnd "expected ')' after modifier argument")
          | close :: rest =>
              if close.kind = .parenClose then
                if kind = .divided ∧ amount == 0 then .error (.invalidModifier kind.name "0")
                else .ok (⟨kind, amount⟩, rest)
              else .error (.unexpectedToken close.text)

/-- The argument of a modifier is its amount behind the label. -/
lemma map_readArgument (kind : ModifierKind) (ts : List Token) :
    (readArgument kind ts).map (fun r => (r.2, r.1.val)) = readAmount kind (skipLabel kind ts) := by
  unfold readArgument
  split
  · next hskip =>
    rw [hskip]
    rfl
  · next t rest hskip =>
    simp only [hskip, readAmount, number?]
    split
    · next hn => rw [hn]; rfl
    · next hn => rw [hn]; rfl
    · next hn =>
      rw [hn]
      dsimp only
      split
      · split <;> rfl
      · rfl

/-- An amount is read wherever its tokens stand. -/
lemma readAmount_moved (kind : ModifierKind) (ts : List Token) :
    readAmount kind (ts.map (Token.moved bytes)) = (readAmount kind ts).map (carried bytes) := by
  cases ts with
  | nil => rfl
  | cons t rest =>
    cases hn : number? t with
    | none => simp [readAmount, hn, number?_moved, Except.map]
    | some amount =>
      cases rest with
      | nil => simp [readAmount, hn, number?_moved, Except.map]
      | cons close rest =>
        by_cases hclose : close.kind = .parenClose
        · by_cases hzero : kind = .divided ∧ amount == 0 <;>
            simp [readAmount, hn, number?_moved, hclose, hzero, carried, Except.map]
        · simp [readAmount, hn, number?_moved, hclose, Except.map]

/-- A name with a bracket behind it begins a modifier, and further modifiers follow. -/
lemma readModifiers_call {name bracket : Token} (hident : name.kind = .ident)
    (hopen : bracket.kind = .parenOpen) {kind : ModifierKind}
    (hname : ModifierKind.ofName? name.text = some kind) (ts : List Token) :
    readModifiers (name :: bracket :: ts) = (do
      let (modifier, rest) ← readAmount kind (skipLabel kind ts)
      let (modifiers, rest) ← readModifiers rest
      .ok (modifier :: modifiers, rest)) := by
  rw [readModifiers.eq_def, ← map_readArgument]
  simp only [hident, hopen, hname, if_true]
  cases readArgument kind ts with
  | error e => rfl
  | ok r =>
    dsimp only [bind, Except.bind, Except.map]
    cases readModifiers r.1.val <;> rfl

/-- The step of the induction over modifiers: one that is moved is read as before if those behind it
are. -/
lemma readModifiers_call_moved {name bracket : Token} (hident : name.kind = .ident)
    (hopen : bracket.kind = .parenOpen) {kind : ModifierKind}
    (hname : ModifierKind.ofName? name.text = some kind) {ts : List Token}
    (ih : ∀ m rest, readAmount kind (skipLabel kind ts) = .ok (m, rest) →
      readModifiers (rest.map (Token.moved bytes)) = (readModifiers rest).map (carried bytes)) :
    readModifiers ((name :: bracket :: ts).map (Token.moved bytes)) =
      (readModifiers (name :: bracket :: ts)).map (carried bytes) := by
  rw [List.map_cons, List.map_cons, readModifiers_call hident hopen hname,
    readModifiers_call (by exact hident) (by exact hopen) (by exact hname), skipLabel_moved,
    readAmount_moved]
  cases hamount : readAmount kind (skipLabel kind ts) with
  | error e => rfl
  | ok r =>
    change (readModifiers (r.2.map (Token.moved bytes)) >>= _) =
      (readModifiers r.2 >>= _).map (carried bytes)
    rw [ih r.1 r.2 hamount]
    cases readModifiers r.2 <;> rfl

/-- Modifiers are read wherever their tokens stand. -/
lemma readModifiers_moved (ts : List Token) :
    readModifiers (ts.map (Token.moved bytes)) = (readModifiers ts).map (carried bytes) := by
  induction ts using readModifiers.induct with
  | case1 => simp [readModifiers, carried, Except.map]
  | case2 name hident => simp [readModifiers, hident, Except.map]
  | case3 name hident bracket arguments hopen hname =>
    simp [readModifiers, hident, hopen, hname, Except.map]
  | case4 name hident bracket arguments hopen kind hname e hargument =>
    refine readModifiers_call_moved bytes hident hopen hname fun m rest hamount => ?_
    rw [← map_readArgument, hargument] at hamount
    cases hamount
  | case5 name hident bracket arguments hopen kind hname r m hargument
  | case6 name hident bracket arguments hopen kind hname r m hargument =>
    rename_i ih
    refine readModifiers_call_moved bytes hident hopen hname fun m rest hamount => ?_
    rw [← map_readArgument, hargument] at hamount
    cases hamount
    exact ih
  | case7 name hident bracket arguments hopen => simp [readModifiers, hident, hopen, Except.map]
  | case8 name rest hident =>
    rw [List.map_cons, readModifiers.eq_def, readModifiers.eq_def (name :: rest)]
    simp [hident, carried, Except.map]

/-- So is a priority. -/
lemma readPriority_moved (ts : List Token) :
    readPriority (ts.map (Token.moved bytes)) = (readPriority ts).map (carried bytes) := by
  cases ts with
  | nil => rfl
  | cons t rest =>
    by_cases hat : t.kind = .atSign
    · cases rest with
      | nil => simp [readPriority, hat, Except.map]
      | cons value rest =>
        by_cases hvalue : value.kind = .ident ∨ value.kind = .number
        · cases hp : Priority.ofText value.text <;>
            simp [readPriority, hat, hvalue, hp, carried, Except.map]
        · simp [readPriority, hat, hvalue, Except.map]
    · simp [readPriority, hat, carried, Except.map]

/-- What stands behind the target. -/
def ofTokensBehind (clause : List Modifier → Priority → Clause) (ts : List Token) :
    Except LayoutError Clause := do
  let (modifiers, ts) ← readModifiers ts
  let (priority, ts) ← readPriority ts
  match ts with
  | [] => .ok (clause modifiers priority)
  | t :: _ => .error (.unexpectedToken t.text)

/-- What stands behind a target is read wherever its tokens stand. -/
lemma ofTokensBehind_moved (clause : List Modifier → Priority → Clause) (ts : List Token) :
    ofTokensBehind clause (ts.map (Token.moved bytes)) = ofTokensBehind clause ts := by
  unfold ofTokensBehind
  rw [readModifiers_moved]
  rcases readModifiers ts with e | ⟨modifiers, ts⟩
  · rfl
  change (readPriority (ts.map (Token.moved bytes)) >>= _) = (readPriority ts >>= _)
  rw [readPriority_moved]
  rcases readPriority ts with e | ⟨priority, _ | ⟨t, ts⟩⟩ <;> rfl

/-- What stands behind the relation. -/
def ofTokensFrom (clause : Option Target → Option Anchor → List Modifier → Priority → Clause) :
    Option Target × List Token → Except LayoutError Clause
  | (none, ts) => ofTokensBehind (clause none none) ts
  | (some target, ts) => do
      let (anchor, ts) ← readTargetAnchor target ts
      ofTokensBehind (clause (some target) anchor) ts

/-- A clause is read part by part. -/
lemma ofTokens_eq (ts : List Token) :
    ofTokens ts = (do
      let (relation, rest) ← readRelation (readCapture ts).2
      ofTokensFrom (fun target anchor modifiers priority =>
        ⟨(readCapture ts).1, relation, target.getD .parent, anchor, modifiers, priority⟩)
        (readTarget rest)) := by
  unfold ofTokens
  rcases readCapture ts with ⟨name, ts⟩
  dsimp only
  rcases readRelation ts with e | ⟨relation, ts⟩
  · rfl
  simp only [bind, Except.bind]
  rcases readTarget ts with ⟨_ | target, ts⟩ <;> rfl

/-- What follows the target is the same clause wherever the tokens stand. -/
lemma ofTokensFrom_moved (clause : Option Target → Option Anchor → List Modifier → Priority → Clause)
    (r : Option Target × List Token) :
    ofTokensFrom clause (carried bytes r) = ofTokensFrom clause r := by
  rcases r with ⟨_ | target, ts⟩
  · exact ofTokensBehind_moved bytes _ ts
  · change (readTargetAnchor target (ts.map (Token.moved bytes)) >>= _) =
      (readTargetAnchor target ts >>= _)
    rw [readTargetAnchor_moved]
    rcases readTargetAnchor target ts with e | ⟨anchor, ts⟩
    · rfl
    · exact ofTokensBehind_moved bytes _ ts

/-- **A clause is the same wherever its tokens stand.** -/
theorem ofTokens_moved (ts : List Token) : ofTokens (ts.map (Token.moved bytes)) = ofTokens ts := by
  rw [ofTokens_eq, ofTokens_eq, readCapture_moved]
  rcases readCapture ts with ⟨name, ts⟩
  change (readRelation (ts.map (Token.moved bytes)) >>= _) = (readRelation ts >>= _)
  rw [readRelation_moved]
  rcases readRelation ts with e | ⟨relation, ts⟩
  · rfl
  simp only [Except.map, bind, Except.bind, carried, Prod.map, id, readTarget_moved]
  exact ofTokensFrom_moved bytes _ _

end Clause

/-! ### The clauses on both sides of a semicolon -/

namespace Text

variable {α β : Type}

/-- Cutting what has been mapped is mapping what has been cut. -/
lemma pieces_map (p : β → Bool) (f : α → β) (as : List α) :
    pieces p (as.map f) = (pieces (p ∘ f) as).map (List.map f) := by
  induction as with
  | nil => rfl
  | cons a as ih =>
    rw [List.map_cons, pieces, pieces, ih, Function.comp_apply]
    split
    · rfl
    · cases pieces (p ∘ f) as <;> rfl

/-- Nothing is left between separators if there are only separators. -/
lemma filter_pieces_eq_nil_iff {p : α → Bool} {as : List α} :
    ((pieces p as).filter fun part => !part.isEmpty) = [] ↔ ∀ a ∈ as, p a = true := by
  induction as with
  | nil => simp [pieces]
  | cons a as ih =>
    rw [pieces, List.forall_mem_cons, ← ih]
    split
    · next ha => simp [ha]
    · next ha => cases pieces p as <;> simp [ha]

end Text

namespace Grammar

/-- The runs of two lists with a semicolon between them are those of the one and those of the other. -/
lemma runs_append_semicolon (ts us : List Token) (o : Nat) :
    runs (ts ++ Token.semicolonAt o :: us) = runs ts ++ runs us := by
  simp only [runs, ← Text.pieces_eq_splitOnP]
  rw [Text.pieces_append_cons rfl, List.filter_append]

/-- The runs do not depend on where the tokens stand. -/
lemma runs_moved (bytes : Nat) (ts : List Token) :
    runs (ts.map (Token.moved bytes)) = (runs ts).map (List.map (Token.moved bytes)) := by
  simp only [runs, ← Text.pieces_eq_splitOnP]
  rw [Text.pieces_map, List.filter_map]
  congr 2
  funext run
  cases run <;> rfl

/-- There are no runs if there are only semicolons. -/
lemma runs_eq_nil_iff {ts : List Token} : runs ts = [] ↔ ∀ t ∈ ts, t.kind = .semicolon := by
  rw [runs, ← Text.pieces_eq_splitOnP, Text.filter_pieces_eq_nil_iff]
  simp only [decide_eq_true_eq]

end Grammar

namespace Constraint

open Token

variable {name : String} {keyword : AnchorKeyword}

/-- The constraints of two lists of segments are those of the one and behind them those of the other. -/
lemma ofSegments_append (xs ys : List (List Token)) :
    ofSegments name keyword (xs ++ ys) = (do
      let first ← ofSegments name keyword xs
      let others ← ofSegments name keyword ys
      .ok (first ++ others)) := by
  induction xs with
  | nil =>
    rw [List.nil_append]
    cases ofSegments name keyword ys <;> rfl
  | cons x xs ih =>
    rw [List.cons_append, ofSegments, ofSegments, ih]
    cases Clause.ofTokens x with
    | error e => rfl
    | ok clause =>
      cases hexpand : clause.expand name keyword with
      | error e => simp [bind, Except.bind, hexpand]
      | ok cs =>
        cases ofSegments name keyword xs <;> cases ofSegments name keyword ys <;>
          simp [bind, Except.bind, hexpand]

/-- The constraints of segments do not depend on where the tokens stand. -/
lemma ofSegments_moved (bytes : Nat) (xs : List (List Token)) :
    ofSegments name keyword (xs.map (List.map (moved bytes))) = ofSegments name keyword xs := by
  induction xs with
  | nil => rfl
  | cons x xs ih => rw [List.map_cons, ofSegments, ofSegments, Clause.ofTokens_moved, ih]

/-- A value is void if nothing is in it but blanks and semicolons. -/
def IsVoid (text : String) : Prop := ∀ c ∈ text.toList, TokenKind.isSpace c = true ∨ c = ';'

/-- The tokens of a void value are semicolons. -/
lemma exists_scanFrom_of_void {cs : List Char}
    (h : ∀ c ∈ cs, TokenKind.isSpace c = true ∨ c = ';') (o : Nat) :
    ∃ ts, scanFrom o cs = .ok ts ∧ ∀ t ∈ ts, t.kind = .semicolon := by
  induction cs generalizing o with
  | nil => exact ⟨[], by rw [scanFrom], by simp⟩
  | cons c cs ih =>
    obtain ⟨hc, hcs⟩ := List.forall_mem_cons.1 h
    by_cases hspace : TokenKind.isSpace c = true
    · rw [scanFrom, if_pos hspace]
      exact ih hcs _
    · obtain rfl := hc.resolve_left hspace
      obtain ⟨ts, hts, hall⟩ := ih hcs (o + 1)
      rw [scanFrom_semicolon, hts]
      exact ⟨_, rfl, List.forall_mem_cons.2 ⟨rfl, hall⟩⟩

/-- A text whose tokens are semicolons has nothing in it but blanks and semicolons. -/
lemma void_of_reads {o o' : Nat} {cs rest : List Char} {ts : List Token}
    (h : Reads o cs ts o' rest) (hts : ∀ t ∈ ts, t.kind = .semicolon)
    (hrest : ∀ c ∈ rest, TokenKind.isSpace c = true ∨ c = ';') :
    ∀ c ∈ cs, TokenKind.isSpace c = true ∨ c = ';' := by
  induction h with
  | here => exact hrest
  | space hspace _ ih => exact List.forall_mem_cons.2 ⟨.inl hspace, ih hts hrest⟩
  | @token o kind w cs ts o' rest hl _ ih =>
    obtain ⟨hkind, hothers⟩ := List.forall_mem_cons.1 hts
    obtain rfl : kind = .semicolon := hkind
    obtain rfl : w = [';'] := hl.fits
    exact List.forall_mem_cons.2 ⟨.inr rfl, ih hothers hrest⟩

/-- A value is void if its tokens are semicolons. -/
lemma isVoid_iff {text : String} {tokens : List Token} (h : scan text = .ok tokens) :
    IsVoid text ↔ ∀ t ∈ tokens, t.kind = .semicolon := by
  constructor
  · intro hvoid
    obtain ⟨ts, hts, hall⟩ := exists_scanFrom_of_void hvoid 0
    obtain rfl : tokens = ts := Except.ok.inj (h.symm.trans hts)
    exact hall
  · intro hall
    obtain ⟨o, hread⟩ := scanFrom_eq_ok_iff.1 h
    exact void_of_reads hread hall (by simp)

variable {v w : String} {ts us : List Token}

/-- The runs of two values with a semicolon between them, of which the second stands further behind. -/
lemma runs_join (ts us : List Token) (o bytes : Nat) :
    Grammar.runs (ts ++ semicolonAt o :: us.map (moved bytes)) =
      Grammar.runs ts ++ (Grammar.runs us).map (List.map (moved bytes)) := by
  rw [Grammar.runs_append_semicolon, Grammar.runs_moved]

/-- If there are runs, then they are the segments. -/
lemma segments_of_runs (h : Grammar.runs ts ≠ []) : segments ts = Grammar.runs ts := by
  rw [Grammar.segments_eq, Grammar.segments, if_neg h]

/-- Where there are clauses on both sides, those on the right come behind those on the left. -/
lemma ofSegments_join (hts : Grammar.runs ts ≠ []) (hus : Grammar.runs us ≠ []) (o bytes : Nat) :
    ofSegments name keyword (segments (ts ++ semicolonAt o :: us.map (moved bytes))) = (do
      let first ← ofSegments name keyword (segments ts)
      let others ← ofSegments name keyword (segments us)
      .ok (first ++ others)) := by
  have hjoined := runs_join ts us o bytes
  have hne : Grammar.runs (ts ++ semicolonAt o :: us.map (moved bytes)) ≠ [] := by
    rw [hjoined]
    exact fun h => hts (List.append_eq_nil_iff.1 h).1
  rw [segments_of_runs hne, hjoined, ofSegments_append, ofSegments_moved, segments_of_runs hts,
    segments_of_runs hus]

/-- A side without a clause says nothing, not even that a clause is empty. -/
lemma segments_join_of_right (hus : Grammar.runs us = []) (o bytes : Nat) :
    segments (ts ++ semicolonAt o :: us.map (moved bytes)) = segments ts := by
  have hjoined := runs_join ts us o bytes
  rw [hus, List.map_nil, List.append_nil] at hjoined
  rw [Grammar.segments_eq, Grammar.segments_eq, Grammar.segments, Grammar.segments, hjoined]

/-- Behind a void value a value has the constraints that it has alone. -/
lemma ofSegments_join_of_left (hts : Grammar.runs ts = []) (o bytes : Nat) :
    ofSegments name keyword (segments (ts ++ semicolonAt o :: us.map (moved bytes))) =
      ofSegments name keyword (segments us) := by
  have hjoined := runs_join ts us o bytes
  rw [hts, List.nil_append] at hjoined
  by_cases hus : Grammar.runs us = []
  · rw [segments_join_of_right hus, Grammar.segments_eq, Grammar.segments_eq, Grammar.segments,
      Grammar.segments, hts, hus]
  · have hne : Grammar.runs (ts ++ semicolonAt o :: us.map (moved bytes)) ≠ [] := by
      rw [hjoined]
      exact fun h => hus (List.map_eq_nil_iff.1 h)
    rw [segments_of_runs hne, hjoined, ofSegments_moved, segments_of_runs hus]

/-- A value is void if it has no runs. -/
lemma runs_eq_nil_iff_isVoid {text : String} {tokens : List Token} (h : scan text = .ok tokens) :
    Grammar.runs tokens = [] ↔ IsVoid text :=
  Grammar.runs_eq_nil_iff.trans (isVoid_iff h).symm

/-- The constraints of a value are those of its segments. -/
lemma ofText_of_scan (hkeyword : AnchorKeyword.ofName? name = some keyword)
    (hv : scan v = .ok ts) : ofText name v = ofSegments name keyword (segments ts) := by
  rw [ofText, hkeyword, hv]
  rfl

/-- A value that is not scanned has no constraints. -/
lemma ofText_of_scan_error (hkeyword : AnchorKeyword.ofName? name = some keyword)
    {e : LayoutError} (hv : scan v = .error e) : ofText name v = .error e := by
  rw [ofText, hkeyword, hv]
  rfl

/-- The constraints of a value with one segment are those of its clause. -/
lemma ofText_of_clause (hkeyword : AnchorKeyword.ofName? name = some keyword)
    (hv : scan v = .ok ts) (hts : segments ts = [ts]) {c : Clause}
    (hc : Clause.ofTokens ts = .ok c) : ofText name v = c.expand name keyword := by
  rw [ofText_of_scan hkeyword hv, hts, ofSegments, hc]
  change (c.expand name keyword >>= fun first => .ok (first ++ [])) = _
  cases c.expand name keyword with
  | error e => rfl
  | ok cs => exact congrArg Except.ok (List.append_nil cs)

/-- **Values with a semicolon between them.** A value is void if its tokens are semicolons. Two values
that are not void are parsed together if and only if each of them is parsed, and then the constraints are
those of the first and behind them those of the second. With a void value behind it, or before it, a value
has the constraints that it has alone. A void value before it shifts the positions in its errors, so there
only what is parsed is the same, while behind it nothing changes at all.

**Proof sketch.** The scan of the two values is the scan of the first, the semicolon and the scan of the
second further behind (`scan_append_semicolon`). So the runs of tokens between semicolons are those of the
first and those of the second (`runs_join`), and a run is the same clause wherever it stands
(`Clause.ofTokens_moved`). -/
theorem ofText_append_semicolon (name v w : String) :
    (∀ text tokens, scan text = .ok tokens →
      (IsVoid text ↔ ∀ t ∈ tokens, t.kind = .semicolon)) ∧
    (¬ IsVoid v → ¬ IsVoid w → ∀ cs, ofText name (v ++ ";" ++ w) = .ok cs ↔
      ∃ first others, ofText name v = .ok first ∧ ofText name w = .ok others ∧
        cs = first ++ others) ∧
    (IsVoid w → ofText name (v ++ ";" ++ w) = ofText name v) ∧
    (IsVoid v → ∀ cs, ofText name (v ++ ";" ++ w) = .ok cs ↔ ofText name w = .ok cs) := by
  refine ⟨fun _ _ => isVoid_iff, ?_⟩
  cases hkeyword : AnchorKeyword.ofName? name with
  | none =>
    have refused (text : String) : ofText name text = .error (.unknownAttribute name) := by
      rw [ofText, hkeyword]
    simp [refused]
  | some keyword =>
    have hjoined := scan_append_semicolon v w
    cases hv : scan v with
    | error e =>
      rw [hv] at hjoined
      have hfails := ofText_of_scan_error hkeyword hv
      have hboth := ofText_of_scan_error hkeyword hjoined
      refine ⟨?_, fun _ => hboth.trans hfails.symm, fun hvoid => ?_⟩
      · simp [hfails, hboth]
      · obtain ⟨ts, hts, -⟩ := exists_scanFrom_of_void hvoid 0
        cases hv.symm.trans hts
    | ok ts =>
      have hfirst := ofText_of_scan hkeyword hv
      cases hw : scan w with
      | error e =>
        rw [hv, hw] at hjoined
        have hfails := ofText_of_scan_error hkeyword hw
        have hboth := ofText_of_scan_error hkeyword hjoined
        refine ⟨?_, fun hvoid => ?_, ?_⟩
        · simp [hfails, hboth]
        · obtain ⟨us, hus, -⟩ := exists_scanFrom_of_void hvoid 0
          cases hw.symm.trans hus
        · simp [hfails, hboth]
      | ok us =>
        rw [hv, hw] at hjoined
        have hothers := ofText_of_scan hkeyword hw
        have hboth := ofText_of_scan hkeyword hjoined
        rw [hboth, hfirst, hothers, ← runs_eq_nil_iff_isVoid hv, ← runs_eq_nil_iff_isVoid hw]
        refine ⟨fun hts hus cs => ?_, fun hus => ?_, fun hts cs => ?_⟩
        · rw [ofSegments_join hts hus, bind_eq_ok]
          simp only [bind_eq_ok, Except.ok.injEq]
          exact ⟨fun ⟨a, ha, b, hb, h⟩ => ⟨a, b, ha, hb, h.symm⟩,
            fun ⟨a, b, ha, hb, h⟩ => ⟨a, ha, b, hb, h.symm⟩⟩
        · rw [segments_join_of_right hus]
        · rw [ofSegments_join_of_left hts]

/-- The tokens of a lower bound. -/
def lowerBound : List Token := [⟨.relationKeyword, ":gte", 0⟩, ⟨.ident, "panel", 5⟩]

/-- The tokens of an upper bound. -/
def upperBound : List Token := [⟨.relationKeyword, ":lte", 1⟩, ⟨.ident, "super", 6⟩]

/-- The tokens of a lower bound for a width. -/
lemma scan_lowerBound : scan ":gte panel" = .ok lowerBound := by
  rw [lowerBound]
  cbv

/-- They are a clause. -/
lemma ofTokens_lowerBound :
    Clause.ofTokens lowerBound = .ok ⟨none, .atLeast, .field "panel", none, [], .required⟩ := by
  rw [lowerBound]
  cbv

/-- The tokens of an upper bound. -/
lemma scan_upperBound : scan " :lte super" = .ok upperBound := by
  rw [upperBound]
  cbv

/-- They are a clause as well. -/
lemma ofTokens_upperBound :
    Clause.ofTokens upperBound = .ok ⟨none, .atMost, .parent, none, [], .required⟩ := by
  rw [upperBound]
  cbv

/-- At least as wide as a panel. -/
def atLeastPanel : Constraint :=
  { anchor := .width, target := .field "panel", targetAnchor := some .width, relation := .atLeast }

/-- At most as wide as the parent. -/
def atMostParent : Constraint :=
  { anchor := .width, targetAnchor := some .width, relation := .atMost }

/-- A width between two bounds, with a void value behind one or before one of them. -/
theorem ofText_widthBounds :
    ¬ IsVoid ":gte panel" ∧ ¬ IsVoid " :lte super" ∧ IsVoid " ; " ∧
    ofText "width" (":gte panel" ++ ";" ++ " :lte super") = .ok ([atLeastPanel] ++ [atMostParent]) ∧
    ofText "width" (":gte panel" ++ ";" ++ " ; ") = .ok [atLeastPanel] ∧
    ofText "width" (" ; " ++ ";" ++ " :lte super") = .ok [atMostParent] := by
  have hpanel : ¬ IsVoid ":gte panel" := fun h => absurd (h 'g' (by decide)) (by decide)
  have hparent : ¬ IsVoid " :lte super" := fun h => absurd (h 'l' (by decide)) (by decide)
  have hall : (" ; ".toList.all fun c => decide (TokenKind.isSpace c = true ∨ c = ';')) = true := by decide
  have hvoid : IsVoid " ; " := fun c hc => of_decide_eq_true (List.all_eq_true.1 hall c hc)
  have hlower : ofText "width" ":gte panel" = .ok [atLeastPanel] :=
    (ofText_of_clause rfl scan_lowerBound rfl ofTokens_lowerBound).trans rfl
  have hupper : ofText "width" " :lte super" = .ok [atMostParent] :=
    (ofText_of_clause rfl scan_upperBound rfl ofTokens_upperBound).trans rfl
  obtain ⟨-, hboth, -, -⟩ := ofText_append_semicolon "width" ":gte panel" " :lte super"
  obtain ⟨-, -, hbehind, -⟩ := ofText_append_semicolon "width" ":gte panel" " ; "
  obtain ⟨-, -, -, hbefore⟩ := ofText_append_semicolon "width" " ; " " :lte super"
  exact ⟨hpanel, hparent, hvoid, (hboth hpanel hparent _).2 ⟨_, _, hlower, hupper, rfl⟩,
    (hbehind hvoid).trans hlower, (hbefore hvoid _).2 hupper⟩

end Constraint

end ViewMarkup
